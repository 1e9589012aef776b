import FeelingsOverflow.Firestore.Document
import FeelingsOverflow.Execution.Keeps

namespace Firestore

variable {κ α : Type} [DecidableEq κ] {P : κ → Document → Prop} {id : κ}

-- All documents of a collection are as they are to be under their keys.
def Conforms (P : κ → Document → Prop) (s : Collection κ) : Prop :=
  ∀ id d, s id = some d → P id d

omit [DecidableEq κ] in
theorem conforms_empty : Conforms P fun _ => none :=
  nofun

theorem Conforms.put {s : Collection κ} (h : Conforms P s) (hd : P id d) :
    Conforms P (Function.update s id (some d)) := by
  intro i d' hi
  by_cases he : i = id
  case pos =>
    subst he
    rw [Function.update_self, Option.some.injEq] at hi
    exact hi ▸ hd
  case neg => exact h i d' (by rwa [Function.update_of_ne he] at hi)

theorem keeps_get (id : κ) :
    (get id).Keeps perform (Conforms P) fun snap => ∀ d, snap = some d → P id d := by
  refine Async.Keeps.perform fun s r s' hs he => ?_
  obtain ⟨rfl, rfl⟩ := Prod.mk.inj (Option.some.inj he)
  exact ⟨hs, fun d hd => hs id d hd⟩

theorem keeps_set (h : P id d) : (set id d).Keeps perform (Conforms P) fun _ => True := by
  refine Async.Keeps.perform fun s r s' hs he => ?_
  obtain ⟨rfl, rfl⟩ := Prod.mk.inj (Option.some.inj he)
  exact ⟨hs.put h, trivial⟩

theorem keeps_update {fields : List (String × FieldValue)} (h : ∀ d, P id d → P id (d.update fields)) :
    (update id fields).Keeps perform (Conforms P) fun _ => True := by
  refine Async.Keeps.perform fun s r s' hs he => ?_
  obtain ⟨d, hd, he⟩ := Option.map_eq_some_iff.mp he
  obtain ⟨rfl, rfl⟩ := Prod.mk.inj he
  exact ⟨hs.put <| h d <| hs id d hd, trivial⟩

-- Code that continues with a document's data.
theorem keeps_data {c : Document → Task κ α} {Q : α → Prop}
    (h : ∀ d, P id d → (c d).Keeps perform (Conforms P) Q) :
    (do c (← Async.ofOption (← get id))).Keeps perform (Conforms P) Q :=
  (keeps_get id).bind fun _ hs => (Async.Keeps.ofOption hs).bind h

-- All fields of a document fit, where absent ones are to be looked at, too.
def Typed (Fits : κ → String → Option Value → Prop) (id : κ) (d : Document) : Prop :=
  ∀ f, Fits id f (d f)

omit [DecidableEq κ] in
theorem Typed.update {Fits : κ → String → Option Value → Prop} {fields : List (String × FieldValue)}
    (h : Typed Fits id d)
    (hv : ∀ f v, (f, v) ∈ fields → ∀ x, Fits id f x → Fits id f (some (v.apply x))) :
    Typed Fits id (d.update fields) := by
  induction fields generalizing d
  case nil => exact h
  case cons p fields hi =>
    obtain ⟨f, v⟩ := p
    refine hi (fun g => ?_) fun g w hm => hv g w (List.mem_cons_of_mem _ hm)
    by_cases hg : g = f
    case pos =>
      subst hg
      rw [Function.update_self]
      exact hv g v List.mem_cons_self _ (h g)
    case neg =>
      rw [Function.update_of_ne hg]
      exact h g

end Firestore
