import FeelingsOverflow.Screens.Search
import FeelingsOverflow.Execution.Run

open Firestore Execution FirebaseMethods
open Lifecycle (advance answered)

namespace Search

def usernameOf (users : Users) (uid : Uid) : Option String :=
  (users uid).bind (·.string "username")

def Query.Lists (q : Query) (users : Users) (uid : Uid) : Prop :=
  ∃ d, users uid = some d ∧ q.finds d

-- The users to be shown for a text: all but oneself whose username is not less than it.
def Wanted (users : Users) (currentUserUid : Uid) (text : String) (uid : Uid) : Prop :=
  ∃ name, usernameOf users uid = some name ∧ text ≤ name ∧ uid ≠ currentUserUid

-- Either one's username is loaded, and nobody of the same name would be listed. Or it is not, but one
-- would not be listed anyway, and nobody without a name would.
def Query.Separates (q : Query) (users : Users) (currentUserUid : Uid) : Prop :=
  (q.username ≠ "" ∧ ∀ uid, uid ≠ currentUserUid → usernameOf users uid = some q.username →
    q.username < q.text) ∨
  (q.username = "" ∧
    (∀ name, usernameOf users currentUserUid = some name → name ≠ "" → name < q.text) ∧
    (q.text = "" → ∀ uid, uid ≠ currentUserUid → usernameOf users uid ≠ some ""))

-- Nothing but the end of the loader sets the username.
def Named (users : Users) (currentUserUid : Uid) (c : Loader Fields Unit) (username : String) : Prop :=
  username = "" ∨ c.pending = none ∧ usernameOf users currentUserUid = some username

structure Sound (users : Users) (currentUserUid : Uid) (c : Loader Fields Unit) (p : Page) :
    Prop where
  loaders   : p.widget.loaders = [c]
  suspended : Suspended currentUserUid c
  fields    : Named users currentUserUid c p.widget.state.fields.username
  query     : ∀ q, p.query = some q → Named users currentUserUid c q.username

variable {users : Users} {me : Uid} {c c' : Loader Fields Unit} {p p' : Page} {q : Query} {e : Event}

theorem Query.lists_iff {uid : Uid} : q.Lists users uid ↔
    ∃ name, usernameOf users uid = some name ∧ q.text ≤ name ∧ name ≠ q.username := by
  simp only [Lists, finds, usernameOf, Option.bind_eq_some_iff]
  constructor
  · rintro ⟨d, hd, hf⟩
    split at hf
    case h_1 name hn =>
      have ⟨hu, ht⟩ := of_decide_eq_true hf
      exact ⟨name, ⟨d, hd, hn⟩, ht, hu⟩
    case h_2 => simp at hf
  · rintro ⟨name, ⟨d, hd, hn⟩, ht, hu⟩
    exact ⟨d, hd, by simp [hn, hu, ht]⟩

theorem Query.lists_iff_wanted : (∀ uid, q.Lists users uid ↔ Wanted users me q.text uid) ↔
    ∀ uid name, usernameOf users uid = some name → q.text ≤ name → (name = q.username ↔ uid = me) := by
  simp only [lists_iff, Wanted]
  constructor
  · intro h uid name hn ht
    have h := h uid
    simp only [hn, Option.some.injEq, exists_eq_left', ht, true_and] at h
    exact not_iff_not.mp h
  · intro h uid
    refine exists_congr fun name => and_congr_right fun hn => and_congr_right fun ht => ?_
    exact not_congr <| h uid name hn ht

theorem eq_empty_of_le {text : String} (h : text ≤ "") : text = "" := by
  cases ht : text.toList
  case nil => exact String.toList_eq_nil_iff.mp ht
  case cons =>
    have hl : "" < text := String.lt_iff_toList_lt.mpr <| ht ▸ List.nil_lt_cons ..
    exact absurd hl <| not_lt.mpr h

theorem Query.separates_iff (h : q.username = "" ∨ usernameOf users me = some q.username) :
    q.Separates users me ↔
    ∀ uid name, usernameOf users uid = some name → q.text ≤ name → (name = q.username ↔ uid = me) := by
  by_cases he : q.username = ""
  case pos =>
    simp only [Separates, he, ne_eq, not_true, false_and, false_or, true_and]
    constructor
    · rintro ⟨hm, hn⟩ uid name hu ht
      constructor
      · rintro rfl
        by_contra hne
        exact hn (eq_empty_of_le ht) uid hne hu
      · rintro rfl
        by_contra hne
        exact absurd ht <| not_le.mpr <| hm name hu hne
    · intro hs
      refine ⟨fun name hu hne => ?_, fun ht uid hne hu => ?_⟩
      · by_contra ht
        exact hne <| (hs me name hu <| not_lt.mp ht).mpr rfl
      · exact hne <| (hs uid "" hu <| ht ▸ le_refl _).mp rfl
  case neg =>
    have hu := h.resolve_left he
    simp only [Separates, he, ne_eq, not_false_eq_true, true_and, false_and, or_false]
    constructor
    · intro hs uid name hn ht
      constructor
      · rintro rfl
        by_contra hne
        exact absurd ht <| not_le.mpr <| hs uid hne hn
      · rintro rfl
        exact Option.some.inj <| hn.symm.trans hu
    · intro hs uid hne hn
      by_contra ht
      exact hne <| (hs uid _ hn <| not_lt.mp ht).mp rfl

theorem Resumed.username_cases {ok : Bool} (h : Resumed me (answersOf users ok) c c')
    (s : Lifecycle.State Fields) :
    (advance c' s).2.fields.username = s.fields.username ∨
    (advance c' s).1.pending = none ∧
      usernameOf users me = some (advance c' s).2.fields.username := by
  cases h
  case failed       => exact .inl <| by obtain ⟨_, _ | _, _, _⟩ := s <;> rfl
  case noRequests   => exact .inl rfl
  case picUrl hf    => exact .inl <| hf _
  case names f uids hf =>
    rw [advance_assign, advance_names]
    exact .inl <| hf _
  case username username _ hn =>
    have hu : usernameOf users me = some username := by
      cases ok
      case false => cases hn
      case true  => exact hn
    refine .inr ⟨advance_username .., hu.trans ?_⟩
    obtain ⟨_, _ | _, _, _⟩ := s <;> rfl

theorem sound_start (users : Users) (me : Uid) :
    Sound users me (block (awaitRequests me)) (start me) where
  loaders   := rfl
  suspended := .requests
  fields    := .inl rfl
  query     := by simp [start]

theorem Sound.step (h : Sound users me c p) (hs : step users p e = some p') :
    ∃ c', Sound users me c' p' := by
  cases e
  case complete ok =>
    simp only [Search.step, Option.bind_eq_bind, Option.bind_eq_some_iff] at hs
    obtain ⟨widget, hw, hs⟩ := hs
    obtain rfl := Option.some.inj hs
    obtain ⟨d, c', hi, hc, rfl⟩ := Lifecycle.Widget.resume_eq_some_iff.mp hw
    obtain rfl : c = d := by simpa [h.loaders] using hi
    have hr := h.suspended.cases hc
    have unnamed {username : String} (hn : Named users me c username) : username = "" := by
      rcases hn with hn | ⟨hn, _⟩
      case inl => exact hn
      case inr => simp [Lifecycle.answered_of_pending hn] at hc
    refine ⟨(advance c' p.widget.state).1, ?_, hr.suspended _, ?_, ?_⟩
    case refine_1 => simp [h.loaders]
    case refine_2 => exact hr.username_cases _ |>.imp_left fun he => he.trans <| unnamed h.fields
    case refine_3 => exact fun q hq => .inl <| unnamed (h.query q hq)
  case onChanged text =>
    obtain rfl := Option.some.inj hs
    exact ⟨c, h.loaders, h.suspended, h.fields, h.query⟩
  case onFieldSubmitted =>
    obtain rfl := Option.some.inj hs
    exact ⟨c, h.loaders, h.suspended, h.fields, h.query⟩
  case build =>
    simp only [Search.step, Option.ite_none_right_eq_some, Option.some.injEq] at hs
    obtain ⟨_, rfl⟩ := hs
    refine ⟨c, h.loaders, h.suspended, h.fields, fun q hq => ?_⟩
    simp only [build, Option.ite_none_right_eq_some, Option.some.injEq] at hq
    obtain ⟨_, rfl⟩ := hq
    exact h.fields

-- Whenever the search is submitted, the right users are listed exactly when the username tells
-- oneself from the others. It is empty until the loader has returned.
theorem listed_iff (r : Run (Fires (step users)) (start me) es p) (hq : p.query = some q) :
    (q.username = "" ∨ (∀ c ∈ p.widget.loaders, c.pending = none) ∧
      usernameOf users me = some q.username) ∧
    ((∀ uid, q.Lists users uid ↔ Wanted users me q.text uid) ↔ q.Separates users me) := by
  have ⟨c, h⟩ := r.invariant (I := fun p => ∃ c, Sound users me c p)
    (fun h hs => h.choose_spec.step hs) ⟨_, sound_start users me⟩
  have hn := h.query q hq
  constructor
  case left  => simpa [Named, h.loaders] using hn
  case right => rw [Query.lists_iff_wanted, Query.separates_iff (hn.imp_right And.right)]

theorem usernameOf_registered (uids : List Uid) (uid : Uid) :
    usernameOf (registered uids) uid = if uid ∈ uids then some uid else none := by
  rw [usernameOf, registered]
  split <;> rfl

-- Alice searches once her requests are loaded.
theorem listed_of_loaded : ∃ p q, Run (Fires (step (registered ["alice", "bob"]))) (start "alice")
      [.complete true, .complete true, .onFieldSubmitted, .build] p ∧ p.query = some q ∧
    ∀ uid, q.Lists (registered ["alice", "bob"]) uid ↔
      Wanted (registered ["alice", "bob"]) "alice" q.text uid := by
  have ⟨p, r, hq⟩ : ∃ p, Run (Fires (step (registered ["alice", "bob"]))) (start "alice")
      [.complete true, .complete true, .onFieldSubmitted, .build] p ∧ p.query = some ⟨"alice", ""⟩ :=
    ⟨_, .step rfl <| .step rfl <| .step rfl <| .single rfl, rfl⟩
  refine ⟨p, _, r, hq, (listed_iff r hq).right.mpr <| .inl ⟨by decide, fun uid hne hu => ?_⟩⟩
  rw [usernameOf_registered] at hu
  simp at hu
  exact absurd hu.right hne

-- She is faster than the loader, and finds herself.
theorem not_listed_of_early : ∃ p q, Run (Fires (step (registered ["alice", "bob"]))) (start "alice")
      [.onFieldSubmitted, .build] p ∧ p.query = some q ∧
    q.Lists (registered ["alice", "bob"]) "alice" ∧
    ¬Wanted (registered ["alice", "bob"]) "alice" q.text "alice" := by
  refine ⟨_, ⟨"", ""⟩, .step rfl <| .single rfl, rfl, ?_, ?_⟩
  · exact ⟨_, rfl, by decide⟩
  · rintro ⟨_, _, _, hn⟩
    exact hn rfl

end Search
