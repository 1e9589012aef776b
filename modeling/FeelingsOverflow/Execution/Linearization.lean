import FeelingsOverflow.Execution.Machine

open Execution

namespace Machine

variable {σ θ κ τ ι : Type} [DecidableEq ι]

-- Calls `κ` of which nothing but the last step is seen under a view of the shared state, and that
-- step as the effect of one atomic operation. A call that fails has had no effect. `Suspends k t`
-- holds of the points `t` at which `k` has steps left to take. All of this may rely on what the
-- steps that meet the condition `C` preserve.
structure Commits (M : Machine σ θ) (C : Pool σ θ ι → ι × Bool → Prop) (κ τ : Type) where
  start : κ → θ
  view : σ → τ
  operation : κ → τ → τ
  Sound : Pool σ θ ι → Prop
  Suspends : κ → θ → Prop
  suspends_start : ∀ k, Suspends k (start k)
  not_finished : Suspends k t → M.finished t = false
  sound_step : ∀ {p p' : Pool σ θ ι} {e}, Sound p → C p e → p.step M e = some p' → Sound p'
  fails : M.step t false s = some (t', s') → M.finished t' ∧ view s' = view s
  continues : ∀ {p : Pool σ θ ι} {i}, Suspends k (p.threads i) → Sound p →
    M.step (p.threads i) true p.store = some (t', s') →
    (M.finished t' ∧ view s' = operation k (view p.store)) ∨ (Suspends k t' ∧ view s' = view p.store)

namespace Commits

variable {M : Machine σ θ} {C : Pool σ θ ι → ι × Bool → Prop} {c : Commits M C κ τ}

-- A call is running, or it has finished: with the effect of its operation, or with a failure.
inductive Phase (c : Commits M C κ τ) (k : κ) (t : θ) (committed failed : Prop) : Prop
  | running   : c.Suspends k t → ¬committed → ¬failed → Phase c k t committed failed
  | committed : M.finished t → committed → ¬failed → Phase c k t committed failed
  | failed    : M.finished t → ¬committed → failed → Phase c k t committed failed

theorem Phase.committed_iff {committed failed : Prop} (h : c.Phase k t committed failed) :
    committed ↔ M.finished t ∧ ¬failed := by
  cases h
  case running hs hc _ => simp [c.not_finished hs, hc]
  all_goals simp_all

theorem Phase.of_not_finished {committed failed : Prop} (h : c.Phase k t committed failed)
    (hf : M.finished t = false) : c.Suspends k t ∧ ¬committed ∧ ¬failed := by
  cases h
  case running hs hc hn => exact ⟨hs, hc, hn⟩
  all_goals simp_all

-- Calls in the middle of a run, with those that have taken effect in the order in which they did.
structure Linearized (c : Commits M C κ τ) (calls : ι → κ) (w : τ) (es : List (ι × Bool))
    (p : Pool σ θ ι) (order : List ι) : Prop where
  nodup : order.Nodup
  sublist : order.Sublist (es.map Prod.fst)
  phase : ∀ i, c.Phase (calls i) (p.threads i) (i ∈ order) ((i, false) ∈ es)
  sound : c.Sound p
  view_eq : c.view p.store = order.foldl (fun w i => c.operation (calls i) w) w

namespace Linearized

variable {calls : ι → κ} {p p' : Pool σ θ ι} {order : List ι} {w : τ}

theorem refl (hs : c.Sound p) (ht : ∀ i, p.threads i = c.start (calls i)) :
    c.Linearized calls (c.view p.store) [] p [] where
  nodup   := .nil
  sublist := .slnil
  phase i := .running (ht i ▸ c.suspends_start _) (by simp) (by simp)
  sound   := hs
  view_eq := rfl

theorem step (h : c.Linearized calls w es p order) (hc : C p e) (hp : p.step M e = some p') :
    ∃ order', c.Linearized calls w (es ++ [e]) p' order' := by
  have hs := c.sound_step h.sound hc hp
  obtain ⟨i, ok⟩ := e
  obtain ⟨t, s, ht, rfl⟩ := Pool.step_eq_some.mp hp
  have ⟨hk, hn, hi⟩ := h.phase i |>.of_not_finished (Machine.not_finished ht)
  have hl : order.Sublist ((es ++ [(i, ok)]).map Prod.fst) := by
    rw [List.map_append]
    exact h.sublist.trans (List.sublist_append_left ..)
  -- The other calls stay in their phases.
  have phase {order' : List ι} (ho : ∀ j ≠ i, j ∈ order' ↔ j ∈ order)
      (hp : c.Phase (calls i) t (i ∈ order') ((i, false) ∈ es ++ [(i, ok)])) (j) :
      c.Phase (calls j) (Function.update p.threads i t j) (j ∈ order')
        ((j, false) ∈ es ++ [(i, ok)]) := by
    by_cases hj : j = i
    case pos => subst hj; simpa using hp
    case neg => simpa [hj, ho j hj] using h.phase j
  cases ok
  case false =>
    have ⟨hf, hv⟩ := c.fails ht
    exact ⟨order, h.nodup, hl, phase (by simp) (.failed hf hn (by simp)), hs, hv ▸ h.view_eq⟩
  case true =>
    rcases c.continues hk h.sound ht with ⟨hf, hv⟩ | ⟨hk', hv⟩
    case inl =>
      refine ⟨order ++ [i], ?_, ?_, phase ?_ (.committed hf (by simp) (by simpa using hi)), hs, ?_⟩
      · simpa using h.nodup.concat hn
      · simpa using h.sublist.append_right [i]
      · simp +contextual
      · rw [hv, h.view_eq, List.foldl_append]
        rfl
    case inr =>
      exact ⟨order, h.nodup, hl, phase (by simp) (.running hk' hn (by simpa using hi)), hs,
        hv ▸ h.view_eq⟩

-- However calls are interleaved, each of them has taken effect in one of its own steps, or not at
-- all if it has failed.
theorem of_run (hs : c.Sound p) (ht : ∀ i, p.threads i = c.start (calls i))
    (r : Run (Guarded C (Fires (Pool.step M))) p es q) :
    ∃ order, c.Linearized calls (c.view p.store) es q order :=
  r.history (P := fun es q => ∃ order, c.Linearized calls (c.view p.store) es q order)
    ⟨[], refl hs ht⟩ fun _ ⟨_, h⟩ hq => h.step hq.left hq.right

end Linearized

-- A call that runs by itself, without a failure, has the effect of its operation.
theorem alone {C : Pool σ θ Unit → Unit × Bool → Prop} {c : Commits M C κ τ} {k : κ}
    (hs : c.Sound ⟨s, fun _ => c.start k⟩)
    (r : Run (Guarded C (Fires (Pool.step M))) ⟨s, fun _ => c.start k⟩ es q)
    (hf : M.finished (q.threads ())) (he : ∀ e ∈ es, e.2 = true) :
    c.view q.store = c.operation k (c.view s) ∧ c.Sound q := by
  have ⟨order, h⟩ : ∃ order, c.Linearized (fun _ => k) (c.view s) es q order :=
    Linearized.of_run hs (fun _ => rfl) r
  have hm : () ∈ order := (h.phase ()).committed_iff.mpr ⟨hf, fun hm => by simpa using he _ hm⟩
  obtain rfl : order = [()] := by
    obtain _ | ⟨_, _ | ⟨_, _⟩⟩ := order
    case cons.cons => simpa using h.nodup
    all_goals simp_all
  exact ⟨h.view_eq, h.sound⟩

end Commits

-- A machine by itself is a pool of one.
theorem Pool.run_alone {M : Machine σ θ}
    (r : Run (fun p (_ : Unit) p' => M.step p.1 true p.2 = some p') (t, s) es (t', s')) :
    Run (Fires (Pool.step M)) ⟨s, fun _ : Unit => t⟩ (es.map fun _ => ((), true))
      ⟨s', fun _ => t'⟩ := by
  induction es generalizing t s
  case nil =>
    obtain ⟨rfl, rfl⟩ := Prod.mk.inj r.nil_eq
    exact .refl
  case cons hi =>
    cases r
    case step p h r =>
      refine .step (Pool.step_eq_some.mpr ⟨p.1, p.2, h, ?_⟩) (hi r)
      simp only [Pool.mk.injEq, true_and]
      funext
      simp
end Machine
