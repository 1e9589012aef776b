import FeelingsOverflow.Functionality.Calls

open Firestore FirebaseMethods Call

-- What a field says about one user.
inductive Listed
  | absent
  | other
  | list (isMember : Bool)
  deriving DecidableEq, Repr

namespace Listed

def of (x : Uid) : Option Value → Listed
  | none | some .null => absent
  | some (.array xs)  => list (x ∈ xs)
  | some _            => other

def isMember : Listed → Bool
  | list b => b
  | _      => false

variable {x y : Uid} {v : Option Value} {value : FieldValue}

theorem isMember_of : (of x v).isMember ↔ x ∈ coercedArray v := by
  obtain _ | _ | _ := v <;> simp [of, isMember, coercedArray]

theorem of_arrayUnion : of x (some (FieldValue.apply (.arrayUnion [x]) v)) = list true := by
  simp [of, FieldValue.apply, mem_arrayUnion]

theorem of_arrayRemove : of x (some (FieldValue.apply (.arrayRemove [x]) v)) = list false := by
  simp [of, FieldValue.apply, mem_arrayRemove]

-- Array transforms about another user are not seen in a list, nor in who is a member.
theorem of_apply_ne (hn : x ≠ y) (hv : value = .arrayUnion [y] ∨ value = .arrayRemove [y])
    (xs : List Uid) :
    of x (some (value.apply (some (.array xs)))) = of x (some (.array xs)) := by
  cases hv
  case inl hv => simp [of, hv, FieldValue.apply, mem_arrayUnion, hn]
  case inr hv => simp [of, hv, FieldValue.apply, mem_arrayRemove, hn]

theorem isMember_apply_ne (hn : x ≠ y) (hv : value = .arrayUnion [y] ∨ value = .arrayRemove [y])
    (v : Option Value) : (of x (some (value.apply v))).isMember = (of x v).isMember := by
  rw [Bool.eq_iff_iff, isMember_of, isMember_of]
  cases hv
  case inl hv => simp [hv, FieldValue.apply, mem_arrayUnion, hn]
  case inr hv => simp [hv, FieldValue.apply, mem_arrayRemove, hn]

end Listed

-- What the documents say about one ordered pair of users `(u, v)`: whether `u` and `v` have a
-- document, whether `v` is in `following` of `u`, and `u` in `followers` and `requests` of `v`.
@[ext]
structure PairView where
  uid : Bool
  other : Bool
  following : Listed
  followers : Bool
  requests : Listed
  deriving DecidableEq, Repr

def pairView (u v : Uid) (s : Users) : PairView where
  uid       := (s u).isSome
  other     := (s v).isSome
  following := .of v (field s u "following")
  followers := (Listed.of u (field s v "followers")).isMember
  requests  := .of u (field s v "requests")

theorem following_isMember {s : Users} :
    (pairView u v s).following.isMember ↔ v ∈ elements s u "following" :=
  Listed.isMember_of

theorem followers_iff {s : Users} : (pairView u v s).followers ↔ u ∈ elements s v "followers" :=
  Listed.isMember_of

theorem requests_isMember {s : Users} :
    (pairView u v s).requests.isMember ↔ u ∈ elements s v "requests" :=
  Listed.isMember_of

namespace PairView

-- Whether the operation awaited at a point can be carried out.
def accepts (w : PairView) : Control → Bool
  | .followUser | .removeFollowing | .addFollowing => w.uid
  | _                                              => w.other

-- Where a call continues when its operation is carried out.
def next (w : PairView) : Control → Control
  | .requestFollow =>
    match w.requests with
    | .absent     => .createRequest
    | .list false => .addRequest
    | _           => .returned
  | .stopFollow =>
    match w.requests with
    | .list true => .removeRequest
    | _          => .returned
  | .followUser =>
    match w.following with
    | .list true  => .removeFollower
    | .list false => .addFollower
    | _           => .returned
  | c => c.next

-- What the operation does to the pair.
def apply (w : PairView) : Control → PairView
  | .addRequest      => { w with requests := .list true }
  | .removeRequest   => { w with requests := .list false }
  | .removeFollower  => { w with followers := false }
  | .removeFollowing => { w with following := .list false }
  | .addFollower     => { w with followers := true }
  | .addFollowing    => { w with following := .list true }
  | _                => w

-- The calls about one pair of users, as far as the pair is concerned.
def machine : Machine PairView Paused where
  step p ok w :=
    if p.control = .returned then none
    else if ok ∧ w.accepts p.control then some (p.moveTo (w.next p.control), w.apply p.control)
    else some (p.moveTo .returned, w)
  finished p := p.control = .returned
  step_eq_none := by
    intro p ok w
    by_cases hc : p.control = .returned <;> simp [hc]
    split <;> simp

theorem step_cases {p p' : Paused} (h : machine.step p ok w = some (p', w')) :
    (ok = true ∧ w.accepts p.control ∧ p' = p.moveTo (w.next p.control) ∧ w' = w.apply p.control) ∨
    ((ok = true → ¬w.accepts p.control) ∧ p' = p.moveTo .returned ∧ w' = w) := by
  simp only [machine] at h
  grind

end PairView

namespace Call.Control

-- The list which a call has seen by its `get` and relies on in its updates.
def relies (u v : Uid) : Control → Option (Uid × String)
  | removeFollower | removeFollowing | addFollower | addFollowing => some (u, "following")
  | addRequest | removeRequest                                    => some (v, "requests")
  | _                                                             => none

variable {u v : Uid} {c c' : Control}

theorem relies_resume {data : Document} (hg : c.get u v = some i)
    (h : (c.resume u v data).relies u v = some (j, f)) : j = i ∧ ∃ xs, data f = some (.array xs) := by
  cases c <;> simp only [get, Option.some.injEq, reduceCtorEq] at hg <;> subst hg
  case followUser =>
    simp only [resume] at h
    split at h
    case h_1 hd => split at h <;> simp_all [relies]
    case h_2    => simp [relies] at h
  all_goals
    simp only [resume] at h
    split at h
    · simp [relies] at h
    · split at h
      case h_1 hd => split at h <;> simp_all [relies]
      case h_2    => simp [relies] at h

theorem relies_of_update (hu : c.update u v = some (i, f, value))
    (hf : f ∈ ["following", "requests"]) : c.relies u v = some (i, f) := by
  cases c <;> grind [update, relies]

theorem relies_next (h : c.next.relies u v = some x) : c.relies u v = some x := by
  cases c <;> simp_all [next, relies]

-- Besides `request`, a call updates lists of one of its two users with the other one.
theorem update_list (hu : c.update u v = some (i, f, value)) (hf : f ≠ "request") :
    ∃ x, (value = .arrayUnion [x] ∨ value = .arrayRemove [x]) ∧
      (i, x) = if f = "following" then (u, v) else (v, u) := by
  cases c <;> simp only [update, Option.some.injEq, Prod.mk.injEq, reduceCtorEq] at hu
  case createRequest => exact absurd hu.right.left.symm hf
  all_goals
    obtain ⟨rfl, rfl, rfl⟩ := hu
    simp

-- No update replaces a list which a call relies on by anything else.
theorem isList_updated (hu : c.update u v = some (i, g, value)) (hr : c'.relies u' v' = some (j, f))
    (h : field s j f = some (.array xs)) :
    ∃ xs, field (updated s i [(g, value)]) j f = some (.array xs) := by
  by_cases hi : j = i
  case neg => exact ⟨xs, by rwa [field_updated_of_ne_id hi]⟩
  subst hi
  by_cases hf : f = g
  case neg => exact ⟨xs, by rwa [field_updated_of_ne hf]⟩
  subst hf
  rw [field_updated (isSome_of_field h)]
  cases c <;> simp only [update, Option.some.injEq, Prod.mk.injEq, reduceCtorEq] at hu
  case createRequest =>
    obtain ⟨-, rfl, -⟩ := hu
    cases c' <;> simp [relies] at hr
  all_goals
    obtain ⟨-, -, rfl⟩ := hu
    simp [FieldValue.apply]

end Call.Control

namespace Call.Paused

def Sound (p : Paused) (s : Users) : Prop :=
  ∀ i f, p.control.relies p.uid p.other = some (i, f) → ∃ xs, field s i f = some (.array xs)

theorem sound_step {p p' : Paused} (h : p.Sound s) (hs : machine.step p ok s = some (p', s')) :
    p'.Sound s' := by
  intro i f hr
  cases step_cases hs
  case get hg _ hd =>
    obtain ⟨rfl, hf⟩ := Control.relies_resume hg hr
    simpa [field, hd] using hf
  case update hu _ _ =>
    obtain ⟨_, hf⟩ := h i f (Control.relies_next hr)
    exact Control.isList_updated hu hr hf
  case fail => simp [Control.relies] at hr

theorem sound_frame {p p' q : Paused} (hs : machine.step p ok s = some (p', s')) (h : q.Sound s) :
    q.Sound s' := by
  cases step_cases hs
  case update hu _ _ =>
    intro i f hr
    have ⟨_, hf⟩ := h i f hr
    exact Control.isList_updated hu hr hf
  all_goals exact h

theorem sound_paused (c : Call) (s : Users) : c.paused.Sound s := by
  cases c <;> simp [Sound, paused, Control.relies]

theorem step_pair {p p' : Paused} (hs : machine.step p ok s = some (p', s')) : p'.pair = p.pair := by
  cases step_cases hs <;> rfl

end Call.Paused

namespace pairView

variable {u v : Uid} {c : Control}

theorem accepts_iff (h : c.awaits u v i) : (pairView u v s).accepts c ↔ (s i).isSome := by
  cases c <;> simp_all [Control.awaits, Control.get, Control.update, PairView.accepts, pairView]

theorem apply_get (w : PairView) (h : c.get u v = some i) : w.apply c = w := by
  cases c <;> simp_all [Control.get, PairView.apply]

theorem next_update (w : PairView) (h : c.update u v = some x) : w.next c = c.next := by
  cases c <;> simp_all [Control.update, PairView.next]

theorem next_get (hg : c.get u v = some i) (hd : s i = some data) :
    (pairView u v s).next c = c.resume u v data := by
  cases c <;> simp only [Control.get, Option.some.injEq, reduceCtorEq] at hg <;> subst hg
  case followUser =>
    simp only [PairView.next, pairView, field, hd, Option.bind_some, Control.resume]
    rcases data "following" with _ | _ | _ | _ | _ | _ | xs <;> simp [Listed.of]
    by_cases hx : v ∈ xs <;> simp [hx]
  all_goals
    simp only [PairView.next, pairView, field, hd, Option.bind_some, Control.resume]
    rcases data "requests" with _ | _ | _ | _ | _ | _ | xs <;> simp [Listed.of, isNull]
    by_cases hx : u ∈ xs <;> simp [hx]

theorem updated_eq_apply (hu : c.update u v = some (i, f, value)) (hs : (s i).isSome) :
    pairView u v (updated s i [(f, value)]) = (pairView u v s).apply c := by
  cases c <;> simp only [Control.update, Option.some.injEq, Prod.mk.injEq, reduceCtorEq] at hu
  all_goals
    obtain ⟨rfl, rfl, rfl⟩ := hu
    ext1 <;> simp [pairView, PairView.apply, field_updated_of_ne, field_updated hs,
      Listed.of_arrayUnion, Listed.of_arrayRemove, Listed.isMember]

-- On its own pair a call acts as the abstract machine does.
theorem own_step {p p' : Paused} (hs : Paused.machine.step p ok s = some (p', s')) :
    PairView.machine.step p ok (pairView p.uid p.other s) =
      some (p', pairView p.uid p.other s') := by
  have hc : p.control ≠ .returned := by
    intro hc
    simp [Paused.machine.step_eq_none.mpr (p.finished_iff.mpr hc)] at hs
  simp only [PairView.machine, hc, if_false]
  cases Paused.step_cases hs
  case get hg ho hd =>
    rw [if_pos ⟨ho, (accepts_iff (.inl hg)).mpr (by simp [hd])⟩, next_get hg hd, apply_get _ hg]
  case update hu ho hi =>
    rw [if_pos ⟨ho, (accepts_iff (.inr ⟨_, _, hu⟩)).mpr hi⟩, next_update _ hu, updated_eq_apply hu hi]
  case fail hw hn =>
    rw [if_neg fun h => ?_]
    have hi := (accepts_iff hw).mp h.right
    simp [hn h.left] at hi

-- A call which updates a list of some pair, but is not about it, does so with another user.
theorem exists_ne_of_pair_ne {p : Paused} (hn : p.pair ≠ (u, v))
    (hu : p.control.update p.uid p.other = some (i, f, value)) (hf : f ≠ "request")
    (hx : (i, x) = if f = "following" then (u, v) else (v, u)) :
    ∃ y, x ≠ y ∧ (value = .arrayUnion [y] ∨ value = .arrayRemove [y]) := by
  have ⟨y, hv, hy⟩ := Control.update_list hu hf
  refine ⟨y, ?_, hv⟩
  rintro rfl
  rw [hx] at hy
  split at hy
  case isTrue  => exact hn hy.symm
  case isFalse => exact hn <| congrArg Prod.swap hy.symm

theorem listed_updated {p : Paused} (h : p.Sound s) (hn : p.pair ≠ (u, v))
    (hu : p.control.update p.uid p.other = some (i, f, value)) (hg : g ∈ ["following", "requests"])
    (hx : (j, x) = if g = "following" then (u, v) else (v, u)) :
    Listed.of x (field (updated s i [(f, value)]) j g) = Listed.of x (field s j g) := by
  by_cases hf : g = f
  case neg => rw [field_updated_of_ne hf]
  by_cases hi : j = i
  case neg => rw [field_updated_of_ne_id hi]
  subst hf hi
  have ⟨xs, hs⟩ := h j g <| Control.relies_of_update hu hg
  have ⟨y, hy, hv⟩ := exists_ne_of_pair_ne hn hu (by rintro rfl; simp at hg) hx
  rw [field_updated (isSome_of_field hs), hs, Listed.of_apply_ne hy hv]

theorem followers_updated {p : Paused} (hs : (s i).isSome) (hn : p.pair ≠ (u, v))
    (hu : p.control.update p.uid p.other = some (i, f, value)) :
    (Listed.of u (field (updated s i [(f, value)]) v "followers")).isMember =
      (Listed.of u (field s v "followers")).isMember := by
  by_cases hf : "followers" = f
  case neg => rw [field_updated_of_ne hf]
  by_cases hi : v = i
  case neg => rw [field_updated_of_ne_id hi]
  subst hf hi
  have ⟨y, hy, hv⟩ := exists_ne_of_pair_ne hn hu (by decide) rfl
  rw [field_updated hs, Listed.isMember_apply_ne hy hv]

-- What a call does is not seen by any other pair.
theorem other_step {p p' : Paused} (h : p.Sound s) (hn : p.pair ≠ (u, v))
    (hs : Paused.machine.step p ok s = some (p', s')) : pairView u v s' = pairView u v s := by
  cases Paused.step_cases hs
  case update i f value hu _ hi =>
    ext1
    case uid       => simp [pairView]
    case other     => simp [pairView]
    case following => exact listed_updated h hn hu (by simp) rfl
    case followers => exact followers_updated hi hn hu
    case requests  => exact listed_updated h hn hu (by simp) rfl
  all_goals rfl

end pairView

-- Pairs of users are observed separately.
def pairObservation (u v : Uid) :
    Machine.Observation Paused.machine PairView.machine (fun p => p.pair = (u, v)) where
  view := pairView u v
  sound := Paused.Sound
  sound_step := Paused.sound_step
  sound_frame _ hs := Paused.sound_frame hs
  own_step _ ho hs := by
    obtain ⟨rfl, rfl⟩ := Prod.mk.inj ho
    exact pairView.own_step hs
  other_step := pairView.other_step
  own_iff hs := by rw [Paused.step_pair hs]
