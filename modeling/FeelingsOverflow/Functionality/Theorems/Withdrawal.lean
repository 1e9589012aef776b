import FeelingsOverflow.Functionality.Calls

open Firestore

namespace FirebaseMethods

variable {s : Users} {uid target : Uid}

-- Completed calls, one after another.
def evalAll (cs : List Call) (s : Users) : Users :=
  cs.foldl (fun s c => c.code.eval perform s) s

-- Only the list of requests of `target` is changed.
def SameButRequests (target : Uid) (s s' : Users) : Prop :=
  ∀ i f, (i = target → f ≠ "requests") → field s' i f = field s i f

structure Requested (uid target : Uid) (s s' : Users) : Prop where
  once : (elements s' target "requests").count uid = 1
  others : ∀ x, x ≠ uid →
    (elements s' target "requests").count x = (elements s target "requests").count x
  frame : SameButRequests target s s'

structure Withdrawn (target : Uid) (s s' : Users) : Prop where
  same : ∀ x, x ∈ elements s' target "requests" ↔ x ∈ elements s target "requests"
  frame : SameButRequests target s s'

def IsRequest (target : Uid) (c : Call) : Prop :=
  ∃ uid, c = .requestFollow uid target ∨ c = .stopFollow uid target

-- The last call of `uid` was a request, or they were on the list and have not called.
def Remains (target : Uid) (cs : List Call) (s : Users) (uid : Uid) : Prop :=
  (∃ cs₁ cs₂, cs = cs₁ ++ .requestFollow uid target :: cs₂ ∧ ∀ c ∈ cs₂, c.pair.1 ≠ uid) ∨
  (∀ c ∈ cs, c.pair.1 ≠ uid) ∧ uid ∈ elements s target "requests"

structure Reversible (target : Uid) (s : Users) : Prop where
  requested : ∀ uid, Requested uid target s ((requestFollow uid target).eval perform s)
  withdrawn : ∀ uid, uid ∉ elements s target "requests" → Withdrawn target s
    ((stopFollow uid target).eval perform <| (requestFollow uid target).eval perform s)
  remaining : ∀ cs, (∀ c ∈ cs, IsRequest target c) →
    ∀ uid, uid ∈ elements (evalAll cs s) target "requests" ↔ Remains target cs s uid

-- The shapes that the list of requests of an existing document can have.
def Shaped (v : Option Value) : Prop :=
  v = none ∨ v = some .null ∨ ∃ xs : List Uid, v = some (.array xs) ∧ xs.Nodup

-- An update that writes what is already there.
theorem updated_eq_self {s : Users} {v : FieldValue} (h : field s i f = some (v.apply (field s i f))) :
    updated s i [(f, v)] = s := by
  funext j
  simp only [updated]
  split
  case isFalse => rfl
  case isTrue hj =>
    subst hj
    cases hd : s j
    case none => rfl
    case some d =>
      simp only [field, hd, Option.bind_some] at h
      simp [←h]

theorem sameButRequests_updated (s : Users) (target : Uid) (v : FieldValue) :
    SameButRequests target s (updated s target [("requests", v)]) := by
  intro i f h
  by_cases hi : i = target
  case pos => exact field_updated_of_ne (h hi) ..
  case neg => exact field_updated_of_ne_id hi ..

theorem SameButRequests.trans (h₁ : SameButRequests target s₁ s₂) (h₂ : SameButRequests target s₂ s₃) :
    SameButRequests target s₁ s₃ :=
  fun i f h => (h₂ i f h).trans (h₁ i f h)

-- Without a list, the request is written to another field.
theorem eval_requestFollow_of_isNull (hs : (s target).isSome)
    (h : isNull (field s target "requests")) (uid : Uid) :
    (requestFollow uid target).eval perform s =
      updated s target [("request", .value (.array [uid]))] := by
  have ⟨d, hd⟩ := Option.isSome_iff_exists.mp hs
  have hn : isNull (d "requests") := by simpa [field, hd] using h
  simp [requestFollow, Firestore.get, update, Async.eval, outcome_get, hd, Async.ofOption, hn,
    Async.perform_tryCatch, outcome_update]

section

variable {xs : List Uid} (h : field s target "requests" = some (.array xs))
include h

theorem eval_requestFollow (uid : Uid) : (requestFollow uid target).eval perform s =
    updated s target [("requests", .arrayUnion [uid])] := by
  refine (Call.eval_requestFollow h).trans ?_
  split
  case isTrue hx =>
    exact updated_eq_self (by simp [h, FieldValue.apply, arrayUnion_of_mem hx]) |>.symm
  case isFalse => rfl

theorem eval_stopFollow (uid : Uid) : (stopFollow uid target).eval perform s =
    updated s target [("requests", .arrayRemove [uid])] := by
  refine (Call.eval_stopFollow h).trans ?_
  split
  case isTrue => rfl
  case isFalse hx =>
    exact updated_eq_self (by simp [h, FieldValue.apply, arrayRemove_of_not_mem hx]) |>.symm

theorem requests_requestFollow (uid : Uid) :
    field ((requestFollow uid target).eval perform s) target "requests" =
      some (.array (arrayUnion xs [uid])) := by
  rw [eval_requestFollow h, field_updated (isSome_of_field h), h]
  rfl

theorem requests_stopFollow (uid : Uid) :
    field ((stopFollow uid target).eval perform s) target "requests" =
      some (.array (arrayRemove xs [uid])) := by
  rw [eval_stopFollow h, field_updated (isSome_of_field h), h]
  rfl

theorem requested_of_list (hn : xs.Nodup) (uid : Uid) :
    Requested uid target s ((requestFollow uid target).eval perform s) := by
  have hf := requests_requestFollow h uid
  constructor
  case once =>
    simp [elements, hf, (nodup_arrayUnion hn).count, mem_arrayUnion]
  case others =>
    intro x hx
    simp [elements, hf, h, (nodup_arrayUnion hn).count, hn.count, mem_arrayUnion, hx]
  case frame =>
    rw [eval_requestFollow h]
    exact sameButRequests_updated _ _ _

theorem withdrawn_of_list (hu : uid ∉ xs) : Withdrawn target s
    ((stopFollow uid target).eval perform <| (requestFollow uid target).eval perform s) := by
  have hf := requests_requestFollow h uid
  constructor
  case same =>
    intro x
    simp only [elements, requests_stopFollow hf, h, coercedArray_array, mem_arrayRemove,
      mem_arrayUnion, List.mem_singleton]
    grind
  case frame =>
    rw [eval_stopFollow hf, eval_requestFollow h]
    exact (sameButRequests_updated _ _ _).trans (sameButRequests_updated _ _ _)

-- What a single call does to the list.
theorem list_of_call {c : Call} (hc : IsRequest target c) : ∃ ys,
    field (c.code.eval perform s) target "requests" = some (.array ys) ∧
    ∀ x, x ∈ ys ↔ if c.pair.1 = x then c = .requestFollow x target else x ∈ xs := by
  have ⟨uid, hc⟩ := hc
  cases hc
  case inl hc =>
    refine ⟨_, by rw [hc, Call.code, requests_requestFollow h], fun x => ?_⟩
    simp only [hc, Call.pair, mem_arrayUnion, List.mem_singleton]
    grind
  case inr hc =>
    refine ⟨_, by rw [hc, Call.code, requests_stopFollow h], fun x => ?_⟩
    simp only [hc, Call.pair, mem_arrayRemove, List.mem_singleton]
    grind

end

theorem remains_nil : Remains target [] s uid ↔ uid ∈ elements s target "requests" := by
  simp [Remains]

theorem remains_cons {c : Call} {cs : List Call} (hs : uid ∈ elements s' target "requests" ↔
      if c.pair.1 = uid then c = .requestFollow uid target else uid ∈ elements s target "requests") :
    Remains target (c :: cs) s uid ↔ Remains target cs s' uid := by
  have hc : (∃ cs₁ cs₂, c :: cs = cs₁ ++ .requestFollow uid target :: cs₂ ∧
      ∀ c ∈ cs₂, c.pair.1 ≠ uid) ↔ (c = .requestFollow uid target ∧ ∀ c ∈ cs, c.pair.1 ≠ uid) ∨
      ∃ cs₁ cs₂, cs = cs₁ ++ .requestFollow uid target :: cs₂ ∧ ∀ c ∈ cs₂, c.pair.1 ≠ uid := by
    constructor
    · intro ⟨cs₁, cs₂, he, h⟩
      cases cs₁
      case nil =>
        have ⟨hc, hs⟩ := List.cons.inj he
        exact .inl ⟨hc, hs ▸ h⟩
      case cons c' cs₁ => exact .inr ⟨cs₁, cs₂, (List.cons.inj he).right, h⟩
    · intro h
      cases h
      case inl h => exact ⟨[], cs, by simp [h.left], h.right⟩
      case inr h =>
        have ⟨cs₁, cs₂, he, h⟩ := h
        exact ⟨c :: cs₁, cs₂, by simp [he], h⟩
  simp only [Remains, hc, hs, List.forall_mem_cons]
  by_cases hu : c.pair.1 = uid
  case pos => simp only [hu, if_true, ne_eq, not_true, false_and, false_or, and_comm, or_comm]
  case neg =>
    have hn : c ≠ .requestFollow uid target := fun he => hu (by rw [he, Call.pair])
    simp [hu, hn]

theorem remaining_of_list {cs : List Call} (hc : ∀ c ∈ cs, IsRequest target c)
    (h : field s target "requests" = some (.array xs)) (uid : Uid) :
    uid ∈ elements (evalAll cs s) target "requests" ↔ Remains target cs s uid := by
  induction cs generalizing s xs
  case nil => exact remains_nil.symm
  case cons c cs hi =>
    have ⟨ys, hf, hm⟩ := list_of_call h <| hc c (by simp)
    rw [evalAll, List.foldl_cons, ←evalAll, hi (fun c h => hc c (by simp [h])) hf]
    exact (remains_cons <| by simpa [elements, hf, h] using hm uid).symm

theorem not_requested_of_isNull (hs : (s target).isSome)
    (h : isNull (field s target "requests")) (uid : Uid) :
    ¬Requested uid target s ((requestFollow uid target).eval perform s) := by
  intro hr
  have ho := hr.once
  rw [eval_requestFollow_of_isNull hs h, elements_updated_of_ne fun _ => by decide] at ho
  have he : elements s target "requests" = [] := by
    simp only [isNull, decide_eq_true_eq] at h
    cases h <;> simp_all [elements, coercedArray]
  simp [he] at ho

-- Requests can be made and withdrawn exactly when the document has a list of them.
theorem reversible_iff (hs : (s target).isSome) (h : Shaped (field s target "requests")) :
    Reversible target s ↔ ∃ xs, field s target "requests" = some (.array xs) := by
  constructor
  · intro hr
    have hn := fun h => not_requested_of_isNull hs h "" (hr.requested "")
    simp only [isNull, decide_eq_true_eq] at hn
    grind [Shaped]
  · rintro ⟨xs, hx⟩
    have hn : xs.Nodup := by grind [Shaped]
    exact {
      requested := requested_of_list hx hn
      withdrawn := fun uid hu => withdrawn_of_list hx (by simpa [elements, hx] using hu)
      remaining := fun cs hc => remaining_of_list hc hx
    }

theorem reversible_of_registered : Reversible "bob" (registered ["alice", "bob"]) :=
  reversible_iff (by decide) (.inr <| .inr ⟨[], by decide, .nil⟩) |>.mpr ⟨[], by decide⟩

-- A profile whose requests are `null`.
def withoutRequests : Users := fun uid =>
  some <| (newProfile uid uid "").update [("requests", .value .null)]

theorem not_reversible_of_withoutRequests :
    Shaped (field withoutRequests "bob" "requests") ∧ ¬Reversible "bob" withoutRequests := by
  have hn : field withoutRequests "bob" "requests" = some .null := by decide
  refine ⟨.inr <| .inl hn, fun h => ?_⟩
  exact not_requested_of_isNull (by decide) (by rw [hn]; rfl) "alice" (h.requested "alice")

end FirebaseMethods
