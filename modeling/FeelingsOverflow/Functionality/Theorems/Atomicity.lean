import FeelingsOverflow.Functionality.FirebaseMethods

open Firestore

namespace FirebaseMethods

-- What a call of `followUser` is to do to the documents, given which of its operations succeeded:
-- All of it, or nothing.
structure Atomic (uid followId : Uid) (oks : List Bool) (s s' : Users) : Prop where
  unchanged : false ∈ oks →
    field s' followId "followers" = field s followId "followers" ∧
    field s' uid "following" = field s uid "following"
  changed : false ∉ oks →
    (followId ∈ elements s' uid "following" ↔ followId ∉ elements s uid "following") ∧
    (uid ∈ elements s' followId "followers" ↔ followId ∈ elements s' uid "following")

-- The followers are already as the first of the two updates would leave them.
def Anticipated (s : Users) (uid followId : Uid) : Prop :=
  ∃ followers, field s followId "followers" = some (.array followers) ∧
    (uid ∈ followers ↔ followId ∉ elements s uid "following")

-- The `get` fails, or it finds a list and the call does not stop halfway between the two updates.
def Undivided (s : Users) (uid followId : Uid) (ok : Nat → Bool) : Prop :=
  ok 0 = false ∨ (∃ following, field s uid "following" = some (.array following)) ∧
    (ok 1 = false ∨ s followId = none ∨ ok 2 = true ∨ Anticipated s uid followId)

-- The update of one side of a follow.
def edit (isFollowing : Bool) (x : Uid) : FieldValue :=
  if isFollowing then .arrayRemove [x] else .arrayUnion [x]

variable {s : Users} {uid followId : Uid} {ok : Nat → Bool}

-- The two updates of a call, one after the other.
theorem attempt_edits (s : Users) (uid followId : Uid) (ok : Nat → Bool) (hs : (s uid).isSome)
    (isFollowing : Bool) :
    (Async.tryCatch (do
        update followId [("followers", edit isFollowing uid)]
        update uid [("following", edit isFollowing followId)]) (.done ())).attempt perform ok s =
      let s₁ := updated s followId [("followers", edit isFollowing uid)]
      let s₂ := updated s₁ uid [("following", edit isFollowing followId)]
      if ok 0 = false ∨ s followId = none then ([false], s) else
      if ok 1 = false then ([true, false], s₁) else ([true, true], s₂) := by
  have hc : (ok 0 = true ∧ (s followId).isSome) ↔ ¬(ok 0 = false ∨ s followId = none) := by
    simp [Option.isSome_iff_ne_none]
  simp only [update, Async.perform_bind, Async.await_tryCatch, Async.attempt, outcome_update, hc]
  by_cases h : ok 0 = false ∨ s followId = none
  case pos =>
    rw [if_neg (not_not_intro h), if_pos h]
    rfl
  case neg =>
    rw [if_pos h, if_neg h]
    simp only [Option.elim, Async.perform_tryCatch, Async.attempt, outcome_update, updated_isSome, hs,
      and_true]
    cases ok 1 <;> rfl

theorem attempt_followUser :
    (followUser uid followId).attempt perform ok s =
      if ok 0 = false then ([false], s) else
      match field s uid "following" with
      | some (.array following) =>
        let isFollowing := decide (followId ∈ following)
        let s₁ := updated s followId [("followers", edit isFollowing uid)]
        let s₂ := updated s₁ uid [("following", edit isFollowing followId)]
        if ok 1 = false ∨ s followId = none then ([true, false], s) else
        if ok 2 = false then ([true, true, false], s₁) else ([true, true, true], s₂)
      | _ => ([true], s) := by
  simp only [followUser, Firestore.get, Async.perform_bind, Async.await_tryCatch, Async.attempt,
    outcome_get]
  cases h₀ : ok 0
  case false => rfl
  case true =>
    cases hd : s uid
    case none => simp [field, hd, Async.ofOption, Async.attempt]
    case some d =>
      simp only [field, hd, Option.bind_some, Option.elim, Async.ofOption, Async.done_bind, if_true]
      cases hf : d "following"
      case none => simp [asList, Async.attempt]
      case some v =>
        cases v
        case array following =>
          simp only [asList, Async.done_bind]
          have hb := attempt_edits s uid followId (fun n => ok (n + 1)) (by simp [hd])
            (decide (followId ∈ following))
          by_cases hm : followId ∈ following
          all_goals
            simp only [hm, edit, decide_true, decide_false, if_true, if_false, Bool.false_eq_true,
              Bool.true_eq_false, Nat.zero_add] at hb ⊢
            rw [hb]
            split
            case isTrue  => rfl
            case isFalse => split <;> rfl
        all_goals simp [asList, Async.attempt]

-- An edit changes nothing where there is a list that is already as it is to be.
theorem edit_apply_eq_iff {v : Option Value} {isFollowing : Bool} :
    some ((edit isFollowing x).apply v) = v ↔
      ∃ xs, v = some (.array xs) ∧ (x ∈ xs ↔ isFollowing = false) := by
  have he (xs : List String) : some ((edit isFollowing x).apply (some (.array xs))) =
      some (.array xs) ↔ (x ∈ xs ↔ isFollowing = false) := by
    cases isFollowing
    case false => simp [edit, FieldValue.apply, arrayUnion_eq_self_iff]
    case true  => simp [edit, FieldValue.apply, arrayRemove_eq_self_iff]
  constructor
  · intro h
    have ⟨xs, hv⟩ : ∃ xs, v = some (.array xs) := by
      cases isFollowing <;> exact ⟨_, h.symm⟩
    exact ⟨xs, hv, he xs |>.mp (hv ▸ h)⟩
  · intro ⟨xs, hv, hx⟩
    exact hv ▸ (he xs |>.mpr hx)

theorem mem_edit_apply {v : Option Value} {isFollowing : Bool} :
    x ∈ coercedArray (some ((edit isFollowing x).apply v)) ↔ isFollowing = false := by
  cases isFollowing <;> simp [edit, FieldValue.apply, mem_arrayUnion, mem_arrayRemove]

theorem Atomic.of_failure (h : false ∈ oks) : Atomic uid followId oks s s :=
  ⟨fun _ => ⟨rfl, rfl⟩, absurd h⟩

theorem not_atomic_of_success (h : false ∉ oks) : ¬Atomic uid followId oks s s :=
  fun ha => iff_not_self (ha.changed h).left

-- A call that stops after the first of its two updates.
theorem atomic_halfway_iff (hf : false ∈ oks) (hs : (s followId).isSome)
    (hi : isFollowing = decide (followId ∈ elements s uid "following")) :
    Atomic uid followId oks s (updated s followId [("followers", edit isFollowing uid)]) ↔
      Anticipated s uid followId := by
  have he : field (updated s followId [("followers", edit isFollowing uid)]) followId "followers" =
      field s followId "followers" ↔ Anticipated s uid followId := by
    rw [field_updated hs, edit_apply_eq_iff, Anticipated, hi, decide_eq_false_iff_not]
  constructor
  · intro h
    exact he.mp (h.unchanged hf).left
  · intro h
    exact ⟨fun _ => ⟨he.mpr h, field_updated_of_ne (by decide) ..⟩, absurd hf⟩

theorem atomic_of_edits (ho : false ∉ oks) (hu : (s uid).isSome) (hs : (s followId).isSome)
    (hi : isFollowing = decide (followId ∈ elements s uid "following")) :
    Atomic uid followId oks s (updated (updated s followId [("followers", edit isFollowing uid)]) uid
      [("following", edit isFollowing followId)]) := by
  refine ⟨fun h => absurd h ho, fun _ => ?_⟩
  have hf : followId ∈ elements (updated (updated s followId [("followers", edit isFollowing uid)]) uid
      [("following", edit isFollowing followId)]) uid "following" ↔ isFollowing = false := by
    rw [elements, field_updated (by rwa [updated_isSome]), mem_edit_apply]
  have hr : uid ∈ elements (updated (updated s followId [("followers", edit isFollowing uid)]) uid
      [("following", edit isFollowing followId)]) followId "followers" ↔ isFollowing = false := by
    rw [elements_updated_of_ne (fun _ => by decide), elements, field_updated hs, mem_edit_apply]
  rw [hf, hr, hi, decide_eq_false_iff_not]
  exact ⟨Iff.rfl, Iff.rfl⟩

theorem followUser_atomic_iff (s : Users) (uid followId : Uid) (ok : Nat → Bool) :
    Atomic uid followId ((followUser uid followId).attempt perform ok s).1 s
      ((followUser uid followId).attempt perform ok s).2 ↔ Undivided s uid followId ok := by
  simp only [attempt_followUser, Undivided]
  cases h₀ : ok 0
  case false => exact iff_of_true (.of_failure <| by simp) (.inl rfl)
  case true =>
    simp only [Bool.true_eq_false, if_false, false_or]
    split
    case h_1 following hf =>
      have hu := isSome_of_field hf
      have hi : decide (followId ∈ following) = decide (followId ∈ elements s uid "following") := by
        simp [elements, hf]
      by_cases h₁ : ok 1 = false ∨ s followId = none
      case pos =>
        rw [if_pos h₁]
        exact iff_of_true (.of_failure <| by simp) ⟨⟨_, hf⟩, by grind⟩
      case neg =>
        have hs : (s followId).isSome := Option.isSome_iff_ne_none.mpr (not_or.mp h₁).right
        rw [if_neg h₁]
        cases h₂ : ok 2
        case false =>
          rw [if_pos rfl, atomic_halfway_iff (by simp) hs hi]
          grind
        case true =>
          rw [if_neg (by decide)]
          exact iff_of_true (atomic_of_edits (by simp) hu hs hi) ⟨⟨_, hf⟩, by simp⟩
    case h_2 hf =>
      exact iff_of_false (not_atomic_of_success <| by simp) fun h => h.left.elim fun _ he => hf _ he

-- Bob gets a follower, but Alice does not follow him: the second update is lost.
theorem not_atomic_of_lostUpdate :
    ¬Atomic "alice" "bob"
      ((followUser "alice" "bob").attempt perform (· ≠ 2) (registered ["alice", "bob"])).1
      (registered ["alice", "bob"])
      ((followUser "alice" "bob").attempt perform (· ≠ 2) (registered ["alice", "bob"])).2 :=
  fun h => absurd (h.unchanged <| by decide).left (by decide)

end FirebaseMethods
