import Mathlib

-- Threads which act on a shared state by total steps, each of which has one outcome when it runs by
-- itself. Threads are independent, if running one of them to its end neither changes what the other
-- one does, nor is changed by it.
structure Serial (σ κ : Type) where
  act : κ → σ → κ × σ
  finish : κ → σ → σ
  finish_act : ∀ c s, finish (act c s).1 (act c s).2 = finish c s
  Independent : κ → κ → Prop
  symm : ∀ {c d}, Independent c d → Independent d c
  independent_act : ∀ {c d} s, Independent c d → Independent (act c s).1 d
  commute : ∀ {c d} s, Independent c d →
    act c (finish d s) = ((act c s).1, finish d (act c s).2)

namespace Serial

variable {σ κ : Type} (S : Serial σ κ)

-- The state after all threads have run to their end, one after another.
def settle (cs : List κ) (s : σ) : σ :=
  cs.foldl (fun s c => S.finish c s) s

variable {S} {xs ys : List κ} {c : κ}

@[simp]
theorem settle_nil (s : σ) : S.settle [] s = s :=
  rfl

@[simp]
theorem settle_cons (s : σ) : S.settle (c :: xs) s = S.settle xs (S.finish c s) :=
  rfl

@[simp]
theorem settle_append (s : σ) : S.settle (xs ++ ys) s = S.settle ys (S.settle xs s) :=
  List.foldl_append ..

theorem settle_of_finished (h : ∀ c ∈ xs, ∀ s, S.finish c s = s) (s : σ) : S.settle xs s = s := by
  induction xs
  case nil => rfl
  case cons c xs hi => rw [settle_cons, h c (by simp), hi fun c hc => h c (by simp [hc])]

theorem act_settle (h : ∀ d ∈ xs, S.Independent c d) (s : σ) :
    S.act c (S.settle xs s) = ((S.act c s).1, S.settle xs (S.act c s).2) := by
  induction xs generalizing s
  case nil => rfl
  case cons d xs hi =>
    rw [settle_cons, hi (fun d hd => h d (by simp [hd])), S.commute s (h d (by simp))]
    rfl

-- However independent threads are interleaved, they lead to the same state.
theorem settle_act (h : (xs ++ c :: ys).Pairwise S.Independent) (s : σ) :
    S.settle (xs ++ (S.act c s).1 :: ys) (S.act c s).2 = S.settle (xs ++ c :: ys) s := by
  have hc : ∀ d ∈ xs, S.Independent c d :=
    fun d hd => S.symm <| (List.pairwise_append.mp h).right.right d hd c (by simp)
  have ha := act_settle hc s
  have hf := S.finish_act c (S.settle xs s)
  simp only [ha] at hf
  simp only [settle_append, settle_cons, hf]

theorem pairwise_act (h : (xs ++ c :: ys).Pairwise S.Independent) (s : σ) :
    (xs ++ (S.act c s).1 :: ys).Pairwise S.Independent := by
  rw [List.pairwise_append, List.pairwise_cons] at *
  obtain ⟨hx, ⟨hc, hy⟩, hxy⟩ := h
  refine ⟨hx, ⟨fun d hd => S.independent_act s (hc d hd), hy⟩, fun d hd e he => ?_⟩
  rcases List.mem_cons.mp he with rfl | he
  · exact S.symm <| S.independent_act s <| S.symm <| hxy d hd c (by simp)
  · exact hxy d hd e (by simp [he])

end Serial
