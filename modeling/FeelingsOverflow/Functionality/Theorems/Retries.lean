import FeelingsOverflow.Functionality.Theorems.Atomicity
import FeelingsOverflow.Functionality.Columns

open Firestore FirebaseMethods

namespace FirebaseMethods

-- An attempt to (un)follow, of which `ok` tells which operations the network lets through.
structure Attempt where
  uid : Uid
  followId : Uid
  ok : Nat → Bool

-- The two sides tell the same about a pair of users.
def Agrees (s : Users) (u v : Uid) : Prop :=
  u ∈ elements s v "followers" ↔ v ∈ elements s u "following"

variable {s : Users} {u v : Uid} {f g : String} {b : Bool}

theorem mem_elements_edit {i j : Uid} (hi : (s i).isSome) :
    x ∈ elements (updated s i [(f, edit b y)]) j f ↔
      if i = j ∧ x = y then b = false else x ∈ elements s j f := by
  by_cases hj : j = i
  case neg => rw [elements, field_updated_of_ne_id hj, if_neg (by grind), elements]
  case pos =>
    subst hj
    rw [elements, field_updated hi]
    by_cases hx : x = y
    case pos => simp [hx, mem_edit_apply]
    case neg =>
      cases b <;> simp [edit, FieldValue.apply, mem_arrayUnion, mem_arrayRemove, hx, elements]

-- What an attempt leaves behind that carries out its first update only.
def half (u v : Uid) (s : Users) : Users :=
  updated s v [("followers", edit (decide (v ∈ elements s u "following")) u)]

@[simp]
theorem half_isSome (x : Uid) : (half u v s x).isSome = (s x).isSome :=
  updated_isSome ..

@[simp]
theorem elements_half (x : Uid) : elements (half u v s) x "following" = elements s x "following" :=
  elements_updated_of_ne (fun _ => by decide) _

theorem edit_edit (b : Bool) (x : Uid) (v : Option Value) :
    (edit b x).apply (some ((edit b x).apply v)) = (edit b x).apply v := by
  have ⟨xs, hx⟩ : ∃ xs, (edit b x).apply v = .array xs := by cases b <;> exact ⟨_, rfl⟩
  have hm : x ∈ xs ↔ b = false := by
    rw [←mem_edit_apply (v := v), hx, coercedArray_array]
  rw [hx]
  exact Option.some.inj <| edit_apply_eq_iff.mpr ⟨xs, rfl, hm⟩

-- Nothing more is left behind by a second attempt.
theorem updated_edit (b : Bool) (i x : Uid) (f : String) :
    updated (updated s i [(f, edit b x)]) i [(f, edit b x)] = updated s i [(f, edit b x)] := by
  funext j
  simp only [updated]
  by_cases hj : j = i
  case neg => simp [hj]
  case pos => cases s j <;> simp [hj, edit_edit]

@[simp]
theorem half_half : half u v (half u v s) = half u v s := by
  rw [half, elements_half, half]
  exact updated_edit ..

namespace Attempt

variable {a : Attempt}

def run (a : Attempt) (s : Users) : Users :=
  ((followUser a.uid a.followId).attempt perform a.ok s).2

-- The attempt carries out the first of its updates.
def Reaches (s : Users) (a : Attempt) : Prop :=
  a.ok 0 ∧ a.ok 1 ∧ (s a.uid).isSome ∧ (s a.followId).isSome

-- It carries out both of them.
def Completes (s : Users) (a : Attempt) : Prop :=
  a.Reaches s ∧ a.ok 2

instance decidableReaches : Decidable (a.Reaches s) :=
  inferInstanceAs (Decidable (_ ∧ _))

instance decidableCompletes : Decidable (a.Completes s) :=
  inferInstanceAs (Decidable (_ ∧ _))

theorem run_of_not_reaches (h : ¬a.Reaches s) : a.run s = s := by
  simp only [run, attempt_followUser]
  split
  case isTrue => rfl
  case isFalse h₀ =>
    split
    case h_1 hf =>
      rw [if_pos]
      by_contra hc
      simp only [not_or, Bool.not_eq_false, ←ne_eq, ←Option.isSome_iff_ne_none] at h₀ hc
      exact h ⟨h₀, hc.left, isSome_of_field hf, hc.right⟩
    case h_2 => rfl

theorem run_of_reaches (hs : HasLists "following" s) (h : a.Reaches s) : a.run s =
    if a.ok 2 then updated (half a.uid a.followId s) a.uid
      [("following", edit (decide (a.followId ∈ elements s a.uid "following")) a.followId)]
    else half a.uid a.followId s := by
  have ⟨h₀, h₁, hu, hv⟩ := h
  have ⟨xs, hx⟩ := hs a.uid hu
  have he : elements s a.uid "following" = xs := congrArg coercedArray hx
  simp only [run, attempt_followUser, half, he, show field s a.uid "following" = _ from hx]
  rw [if_neg (by simp [h₀]), if_neg (by simp [h₁, Option.isSome_iff_ne_none.mp hv])]
  cases a.ok 2 <;> rfl

theorem run_isSome (hs : HasLists "following" s) (x : Uid) : (a.run s x).isSome = (s x).isSome := by
  by_cases h : a.Reaches s
  case neg => rw [run_of_not_reaches h]
  case pos =>
    rw [run_of_reaches hs h]
    split <;> simp

theorem reaches_run (hs : HasLists "following" s) (c : Attempt) :
    a.Reaches (c.run s) ↔ a.Reaches s := by
  simp only [Reaches, run_isSome hs]

theorem hasLists_run (hs : HasLists "following" s) (a : Attempt) :
    HasLists "following" (a.run s) := by
  have hl {b : Bool} (x : Option Value) : ∃ xs, (edit b a.followId).apply x = .array xs := by
    cases b <;> exact ⟨_, rfl⟩
  by_cases h : a.Reaches s
  case neg => rwa [run_of_not_reaches h]
  case pos =>
    have hh : HasLists "following" (half a.uid a.followId s) := hs.updated nofun
    rw [run_of_reaches hs h]
    split
    case isTrue  => exact hh.updated fun _ => hl
    case isFalse => exact hh

-- Whatever becomes of an attempt, it only changes what is said about its own pair.
theorem mem_run (hs : HasLists "following" s) (h : a.Reaches s) :
    (u ∈ elements (a.run s) v "followers" ↔ if (a.uid, a.followId) = (u, v)
      then v ∉ elements s u "following" else u ∈ elements s v "followers") ∧
    (v ∈ elements (a.run s) u "following" ↔ if (a.uid, a.followId) = (u, v) ∧ a.ok 2
      then v ∉ elements s u "following" else v ∈ elements s u "following") := by
  have ⟨_, _, hu, hv⟩ := h
  -- Each of the two updates changes one of the two sides.
  have hf : u ∈ elements (half a.uid a.followId s) v "followers" ↔ if (a.uid, a.followId) = (u, v)
      then v ∉ elements s u "following" else u ∈ elements s v "followers" := by
    rw [half, mem_elements_edit hv, decide_eq_false_iff_not]
    grind
  have hg : elements (half a.uid a.followId s) u "following" = elements s u "following" :=
    elements_updated_of_ne (fun _ => by decide) _
  rw [run_of_reaches hs h]
  split
  case isFalse ho => exact ⟨hf, by simp [ho, hg]⟩
  case isTrue ho =>
    rw [elements_updated_of_ne (fun _ => by decide), mem_elements_edit (by rwa [half_isSome]), hg,
      decide_eq_false_iff_not]
    exact ⟨hf, by grind⟩

theorem agrees_run (hs : HasLists "following" s) : Agrees (a.run s) u v ↔
    if (a.uid, a.followId) = (u, v) ∧ a.Reaches s then a.ok 2 = true else Agrees s u v := by
  by_cases h : a.Reaches s
  case neg => rw [run_of_not_reaches h, if_neg fun hc => h hc.right]
  case pos =>
    have ⟨hf, hg⟩ := mem_run (u := u) (v := v) hs h
    rw [Agrees, hf, hg]
    by_cases hp : (a.uid, a.followId) = (u, v)
    case pos => by_cases ho : a.ok 2 <;> simp [hp, ho, h]
    case neg => simp [hp, Agrees]

-- An attempt after another one that stopped halfway.
theorem run_half (hs : HasLists "following" s) (hp : (a.uid, a.followId) = (u, v)) :
    if a.Completes s then a.run (half u v s) = a.run s
    else (a.run s = s ∨ a.run s = half u v s) ∧ a.run (half u v s) = half u v s := by
  obtain ⟨rfl, rfl⟩ := Prod.mk.inj hp
  have hh : HasLists "following" (half a.uid a.followId s) := hs.updated nofun
  have hr : a.Reaches (half a.uid a.followId s) ↔ a.Reaches s := by simp [Reaches]
  by_cases h : a.Reaches s
  case neg =>
    rw [if_neg fun hc => h hc.left, run_of_not_reaches h, run_of_not_reaches (hr.not.mpr h)]
    exact ⟨.inl rfl, rfl⟩
  case pos =>
    rw [run_of_reaches hs h, run_of_reaches hh (hr.mpr h), half_half, elements_half]
    cases ho : a.ok 2
    case true  => rw [if_pos ⟨h, ho⟩]
    case false =>
      rw [if_neg fun hc => by simp [Completes, ho] at hc]
      exact ⟨.inr rfl, rfl⟩

end Attempt

-- Attempts of any users, one after another.
def attempts (as : List Attempt) (s : Users) : Users :=
  as.foldl (fun s a => a.run s) s

theorem attempts_concat (as : List Attempt) (a : Attempt) (s : Users) :
    attempts (as ++ [a]) s = a.run (attempts as s) :=
  List.foldl_concat ..

-- Whom attempts can reach does not depend on what became of those before them.
theorem attempts_frame (hs : HasLists "following" s) (as : List Attempt) :
    HasLists "following" (attempts as s) ∧ ∀ a : Attempt, a.Reaches (attempts as s) ↔ a.Reaches s := by
  induction as using List.reverseRecOn
  case nil => exact ⟨hs, fun _ => Iff.rfl⟩
  case append_singleton as a hi =>
    rw [attempts_concat]
    exact ⟨Attempt.hasLists_run hi.left a, fun c => Attempt.reaches_run hi.left a |>.trans (hi.right c)⟩

-- After any attempts of any users, the two sides agree about a pair exactly when the last attempt for
-- it that carried out its first update carried out its second one, too.
theorem agrees_attempts_iff (hs : HasLists "following" s) (as : List Attempt) (u v : Uid) :
    Agrees (attempts as s) u v ↔
      (as.filter fun a => (a.uid, a.followId) = (u, v) ∧ a.Reaches s).getLast?.elim (Agrees s u v)
        fun a => a.ok 2 = true := by
  induction as using List.reverseRecOn
  case nil => rfl
  case append_singleton as a hi =>
    have ⟨hl, hr⟩ := attempts_frame hs as
    simp only [attempts_concat, Attempt.agrees_run hl, hr, List.filter_append]
    split
    case isTrue hc =>
      rw [List.filter_cons_of_pos (by simpa using hc), List.filter_nil, List.getLast?_concat]
      rfl
    case isFalse hc =>
      rw [List.filter_cons_of_neg (by simpa using hc), List.filter_nil, List.append_nil, hi]

-- A follow that is tried again after it has failed halfway.
def failing : Attempt :=
  ⟨"alice", "bob", (· ≠ 2)⟩

def succeeding : Attempt :=
  ⟨"alice", "bob", fun _ => true⟩

theorem agrees_of_retry :
    Agrees (attempts [failing, succeeding] (registered ["alice", "bob"])) "alice" "bob" ∧
    ¬Agrees (attempts [succeeding, failing] (registered ["alice", "bob"])) "alice" "bob" := by
  have hs := HasLists.of_fresh (fresh_registered ["alice", "bob"]) (f := "following") (by simp)
  constructor
  · exact agrees_attempts_iff hs _ "alice" "bob" |>.mpr rfl
  · exact fun h => Bool.false_ne_true <| agrees_attempts_iff hs _ "alice" "bob" |>.mp h

-- Trying again until an attempt completes is as good as the attempts that do: those that fail leave
-- nothing behind.
theorem attempts_until_completed (hs : HasLists "following" s) {as : List Attempt}
    (hp : ∀ a ∈ as, (a.uid, a.followId) = (u, v)) (ha : (a.uid, a.followId) = (u, v))
    (hc : a.Completes s) :
    attempts (as ++ [a]) s = attempts (as.filter (·.Completes s) ++ [a]) s := by
  have completes (xs : List Attempt) (c : Attempt) : c.Completes (attempts xs s) ↔ c.Completes s := by
    rw [Attempt.Completes, (attempts_frame hs xs).right, Attempt.Completes]
  have run_half {c : Attempt} (xs : List Attempt) (hc : (c.uid, c.followId) = (u, v)) :=
    c.run_half (attempts_frame hs xs).left hc
  simp only [completes] at run_half
  have h : attempts as s = attempts (as.filter (·.Completes s)) s ∨
      attempts as s = half u v (attempts (as.filter (·.Completes s)) s) := by
    induction as using List.reverseRecOn
    case nil => exact .inl rfl
    case append_singleton as c hi =>
      have hi := hi fun a ha => hp a (by simp [ha])
      have hr := run_half (as.filter (·.Completes s)) (hp c (by simp))
      rw [attempts_concat, List.filter_append]
      split at hr
      case isTrue h =>
        rw [List.filter_cons_of_pos (by simpa using h), List.filter_nil, attempts_concat]
        rcases hi with hi | hi <;> rw [hi]
        · exact .inl rfl
        · exact .inl hr
      case isFalse h =>
        rw [List.filter_cons_of_neg (by simpa using h), List.filter_nil, List.append_nil]
        rcases hi with hi | hi <;> rw [hi]
        · exact hr.left
        · exact .inr hr.right
  have hr := run_half (as.filter (·.Completes s)) ha
  rw [if_pos hc] at hr
  rw [attempts_concat, attempts_concat]
  rcases h with h | h <;> rw [h]
  exact hr

theorem retried_until_completed :
    attempts ([failing, failing] ++ [succeeding]) (registered ["alice", "bob"]) =
      attempts [succeeding] (registered ["alice", "bob"]) :=
  attempts_until_completed (u := "alice") (v := "bob") (.of_fresh (fresh_registered _) (by simp))
    (by simp [failing]) rfl (by decide)

end FirebaseMethods
