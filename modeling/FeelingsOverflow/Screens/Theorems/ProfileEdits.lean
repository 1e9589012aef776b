import FeelingsOverflow.Screens.EditProfile
import FeelingsOverflow.Firestore.Query
import FeelingsOverflow.Execution.Run

open Firestore Execution

namespace EditProfile

-- The last of the texts that are not empty.
def lastFilled (initial : String) (texts : List String) : String :=
  texts.filter (· ≠ "") |>.getLastD initial

-- The user's document holds the given texts, and is otherwise what it was.
structure Edited (s₀ : Users) (uid : Uid) (u b : String) (s : Users) : Prop where
  username : field s uid "username" = some (.string u)
  bio      : field s uid "bio" = some (.string b)
  fields   : ∀ f, f ≠ "username" → f ≠ "bio" → field s uid f = field s₀ uid f
  docs     : ∀ i, i ≠ uid → s i = s₀ i

-- The username `u` is filled in once more.
def Edit.Repeats (e : Edit) (u : String) : Prop :=
  e.username ≠ "" ∧ e.username = u

-- The username which the document already holds is submitted without a bio, and so is everything
-- after that.
def Erases (initial : String) (es : List Edit) : Prop :=
  ∃ es₁ e es₂, es = es₁ ++ e :: es₂ ∧ e.Repeats (lastFilled initial (es₁.map Edit.username)) ∧
    e.bio = "" ∧ ∀ e ∈ es₂, e.bio = ""

variable {s₀ s s' : Users} {uid : Uid} {u b initial : String} {e : Edit} {es : List Edit}

@[simp]
theorem lastFilled_nil (initial : String) : lastFilled initial [] = initial :=
  rfl

@[simp]
theorem lastFilled_concat (initial : String) (texts : List String) (t : String) :
    lastFilled initial (texts ++ [t]) = if t = "" then lastFilled initial texts else t := by
  by_cases h : t = "" <;> simp [lastFilled, h]

theorem not_erases_nil : ¬Erases initial [] := by
  simp [Erases]

theorem erases_concat : Erases initial (es ++ [e]) ↔ e.bio = "" ∧
    (Erases initial es ∨ e.Repeats (lastFilled initial (es.map Edit.username))) := by
  constructor
  · rintro ⟨es₁, e₁, es₂, he, hr, hb, hs⟩
    rcases es₂.eq_nil_or_concat with rfl | ⟨es₂, e₂, rfl⟩
    case inl =>
      obtain ⟨rfl, hl⟩ := List.append_inj' he rfl
      obtain rfl := List.singleton_inj.mp hl
      exact ⟨hb, .inr hr⟩
    case inr =>
      rw [List.concat_eq_append, ←List.cons_append, ←List.append_assoc] at he
      rw [List.concat_eq_append] at hs
      obtain ⟨rfl, hl⟩ := List.append_inj' he rfl
      obtain rfl := List.singleton_inj.mp hl
      exact ⟨hs e (by simp), .inl ⟨es₁, e₁, es₂, rfl, hr, hb, fun e he => hs e (by simp [he])⟩⟩
  · rintro ⟨hb, ⟨es₁, e₁, es₂, rfl, hr, hb₁, hs⟩ | hr⟩
    case inl =>
      refine ⟨es₁, e₁, es₂ ++ [e], by simp, hr, hb₁, fun e' he => ?_⟩
      rcases List.mem_append.mp he with he | he
      case inl => exact hs e' he
      case inr => exact List.mem_singleton.mp he ▸ hb
    case inr => exact ⟨es, e, [], rfl, hr, hb, by simp⟩

theorem Edited.refl (hu : field s uid "username" = some (.string u))
    (hb : field s uid "bio" = some (.string b)) : Edited s uid u b s where
  username     := hu
  bio          := hb
  fields _ _ _ := rfl
  docs _ _     := rfl

theorem Edited.trans (h : Edited s₀ uid u b s) (h' : Edited s uid u' b' s') :
    Edited s₀ uid u' b' s' where
  username       := h'.username
  bio            := h'.bio
  fields f hu hb := (h'.fields f hu hb).trans (h.fields f hu hb)
  docs i hi      := (h'.docs i hi).trans (h.docs i hi)

theorem edited_updated {fields : List (String × FieldValue)} (hd : s uid = some d)
    (hf : ∀ p ∈ fields, p.1 = "username" ∨ p.1 = "bio")
    (hu : d.update fields "username" = some (.string u))
    (hb : d.update fields "bio" = some (.string b)) : Edited s uid u b (updated s uid fields) where
  username := by simpa [field, updated, hd] using hu
  bio      := by simpa [field, updated, hd] using hb
  fields f hu hb := by
    have hm : f ∉ fields.map Prod.fst := by
      intro hm
      obtain ⟨p, hp, he⟩ := List.mem_map.mp hm
      exact hf p hp |>.elim (fun h => hu <| he ▸ h) fun h => hb <| he ▸ h
    simp [field, updated, hd, Document.update_of_not_mem hm]
  docs i hi := by simp [updated, hi]

open Classical in
-- What one submission does. An empty bio is stored where the username is the one already there.
theorem Submits.edited (h : Submits uid s e s') (hu : field s uid "username" = some (.string u))
    (hb : field s uid "bio" = some (.string b)) :
    Edited s uid (if e.username = "" then u else e.username)
      (if e.bio = "" ∧ ¬e.Repeats u then b else e.bio) s' := by
  obtain ⟨d, hd, hdu⟩ := field_eq_some_iff.mp hu
  obtain ⟨d', hd', hdb⟩ := field_eq_some_iff.mp hb
  obtain rfl := Option.some.inj (hd.symm.trans hd')
  have hs : (s uid).isSome := by simp [hd]
  rw [Submits, Async.completes_iff_eval, changeDetails] at h
  split at h
  case isTrue he =>
    obtain rfl : s = s' := h
    have hr : ¬e.Repeats u := fun hr => hr.left he.left
    simpa [he, hr] using Edited.refl hu hb
  case isFalse he =>
    rw [eval_get_bind, hd] at h
    simp only [Async.ofOption, Document.string, hdu, hdb, Async.done_bind] at h
    split at h
    case isTrue hn =>
      have hc : ¬(e.bio = "" ∧ ¬e.Repeats u) := by grind [Edit.Repeats]
      rw [eval_update hs] at h
      rw [if_neg hc]
      refine h ▸ edited_updated hd (by simp) ?_ (by simp [FieldValue.apply])
      rcases hn with rfl | hn <;> simp [*]
    case isFalse hn =>
      have ⟨hu', hn⟩ := not_or.mp hn
      rw [if_neg hn]
      split at h
      case isTrue hb' =>
        have hc : (if e.bio = "" ∧ ¬e.Repeats u then b else e.bio) = b := by grind [Edit.Repeats]
        rw [eval_update hs] at h
        rw [hc]
        exact h ▸ edited_updated hd (by simp) (by simp [FieldValue.apply]) (by simp [hdb])
      case isFalse hb' =>
        have hc : ¬(e.bio = "" ∧ ¬e.Repeats u) := fun he => hb' (.inr he.left)
        rw [eval_update hs] at h
        rw [if_neg hc]
        exact h ▸ edited_updated hd (by simp) (by simp [Document.update, FieldValue.apply])
          (by simp [Document.update, FieldValue.apply])

open Classical in
theorem edited_of_run (r : Run (Submits uid) s₀ es s)
    (hu : field s₀ uid "username" = some (.string u)) (hb : field s₀ uid "bio" = some (.string b)) :
    Edited s₀ uid (lastFilled u (es.map Edit.username))
      (if Erases u es then "" else lastFilled b (es.map Edit.bio)) s := by
  refine r.history (P := fun es s => Edited s₀ uid (lastFilled u (es.map Edit.username))
    (if Erases u es then "" else lastFilled b (es.map Edit.bio)) s) ?_ fun {es s e s'} _ h he => ?_
  case refine_1 => simpa [not_erases_nil] using Edited.refl hu hb
  case refine_2 =>
    have hs := h.trans <| he.edited h.username h.bio
    simp only [List.map_append, List.map_cons, List.map_nil, lastFilled_concat, erases_concat]
    by_cases hb : e.bio = ""
    case pos =>
      by_cases hr : e.Repeats (lastFilled u (es.map Edit.username))
      case pos => simpa [hb, hr] using hs
      case neg => simpa [hb, hr] using hs
    case neg => simpa [hb] using hs

-- Alice and what she tells about herself.
def profile : Users := .of [
  ("alice", .of [("username", .string "alice"), ("bio", .string "hello"), ("uid", .string "alice")])
]

end EditProfile
