import FeelingsOverflow.Functionality.PairView
import FeelingsOverflow.Execution.Serial

namespace PairView

open Call

-- The step of a call that does not fail by itself.
def act (c : Control) (w : PairView) : Control × PairView :=
  if c = .returned then (c, w)
  else if w.accepts c then (w.next c, w.apply c)
  else (.returned, w)

-- A call takes at most three steps.
def finish (c : Control) (w : PairView) : PairView :=
  let (c, w) := act c w
  let (c, w) := act c w
  (act c w).2

end PairView

namespace Call.Control

-- The part of the documents that a call is about.
inductive Kind
  | follow | request
  deriving DecidableEq

def kind : Control → Option Kind
  | followUser | removeFollower | removeFollowing | addFollower | addFollowing => some .follow
  | requestFollow | stopFollow | createRequest | addRequest | removeRequest    => some .request
  | returned                                                                   => none

-- At least one of the two calls has returned, or they are about different parts.
def Independent (c d : Control) : Prop :=
  c.kind = none ∨ d.kind = none ∨ c.kind ≠ d.kind

theorem Independent.symm {c d : Control} (h : c.Independent d) : d.Independent c := by
  rcases h with h | h | h
  · exact .inr (.inl h)
  · exact .inl h
  · exact .inr (.inr h.symm)

-- The number of steps that a call takes at most.
def rank : Control → Nat
  | returned                                                                  => 0
  | createRequest | addRequest | removeRequest | removeFollowing | addFollowing => 1
  | requestFollow | stopFollow | removeFollower | addFollower                 => 2
  | followUser                                                                => 3

theorem rank_le (c : Control) : c.rank ≤ 3 := by
  cases c <;> simp [rank]

theorem rank_eq_zero {c : Control} (h : c.rank = 0) : c = returned := by
  cases c <;> simp [rank] at h ⊢

end Call.Control

namespace PairView

open Call

variable {c d : Control} {w : PairView}

theorem act_of_step {p p' : Paused} (h : machine.step p true w = some (p', w')) :
    p.control ≠ .returned ∧ act p.control w = (p'.control, w') := by
  simp only [machine] at h
  simp only [act]
  grind [Paused.moveTo_control]

@[simp]
theorem act_returned (w : PairView) : act .returned w = (.returned, w) :=
  rfl

theorem rank_act (c : Control) (w : PairView) : (act c w).1.rank ≤ c.rank - 1 := by
  obtain ⟨uid, other, following, followers, requests⟩ := w
  cases c <;> simp [act, accepts, next, Control.next, Control.rank] <;> grind [Control.rank]

theorem kind_act (c : Control) (w : PairView) :
    (act c w).1.kind = none ∨ (act c w).1.kind = c.kind := by
  obtain ⟨uid, other, following, followers, requests⟩ := w
  cases c <;> simp [act, accepts, next, Control.next, Control.kind] <;> grind [Control.kind]

-- Calls about the follows neither read nor change the requests, and the other way round.
theorem act_follow (h : c.kind ≠ some .request) (w : PairView) (r : Listed) :
    act c { w with requests := r } = ((act c w).1, { (act c w).2 with requests := r }) := by
  cases c <;> simp [Control.kind] at h <;> simp [act, accepts, next, apply] <;> grind

theorem act_follow_frame (h : c.kind ≠ some .request) (w : PairView) : (act c w).2 =
    { w with following := (act c w).2.following, followers := (act c w).2.followers } := by
  ext1 <;> cases c <;> simp [Control.kind] at h ⊢ <;> simp only [act, accepts, apply] <;> grind

theorem act_request (h : c.kind ≠ some .follow) (w : PairView) (a : Listed) (b : Bool) :
    act c { w with following := a, followers := b } =
      ((act c w).1, { (act c w).2 with following := a, followers := b }) := by
  cases c <;> simp [Control.kind] at h <;> simp [act, accepts, next, apply] <;> grind

theorem act_request_frame (h : c.kind ≠ some .follow) (w : PairView) : (act c w).2 =
    { w with requests := (act c w).2.requests } := by
  ext1 <;> cases c <;> simp [Control.kind] at h ⊢ <;> simp only [act, accepts, apply] <;> grind

theorem act_commute (hc : c.kind ≠ some .request) (hd : d.kind ≠ some .follow) (w : PairView) :
    act c (act d w).2 = ((act c w).1, (act d (act c w).2).2) ∧
    act d (act c w).2 = ((act d w).1, (act c (act d w).2).2) := by
  have h₁ : act c (act d w).2 = ((act c w).1, { (act c w).2 with requests := (act d w).2.requests }) := by
    rw [act_request_frame hd w, act_follow hc]
  have h₂ : act d (act c w).2 = ((act d w).1, { (act d w).2 with
      following := (act c w).2.following, followers := (act c w).2.followers }) := by
    rw [act_follow_frame hc w, act_request hd]
  simp only [h₁, h₂, true_and, Prod.mk.injEq]
  rw [act_follow_frame hc w, act_request_frame hd w]
  exact ⟨rfl, rfl⟩

theorem finish_act (c : Control) (w : PairView) : finish (act c w).1 (act c w).2 = finish c w := by
  have h₁ := rank_act c w
  have h₂ := rank_act (act c w).1 (act c w).2
  have h₃ := rank_act (act (act c w).1 (act c w).2).1 (act (act c w).1 (act c w).2).2
  have hr := c.rank_le
  simp only [finish]
  rw [Control.rank_eq_zero (c := (act (act (act c w).1 (act c w).2).1 _).1) (by omega), act_returned]

theorem independent_act (w : PairView) (h : c.Independent d) : (act c w).1.Independent d := by
  rcases kind_act c w with hk | hk
  · exact .inl hk
  · rwa [Control.Independent, hk]

theorem act_commute_of_independent (h : c.Independent d) (w : PairView) :
    act c (act d w).2 = ((act c w).1, (act d (act c w).2).2) ∧
    act d (act c w).2 = ((act d w).1, (act c (act d w).2).2) := by
  have hk : (c.kind ≠ some .request ∧ d.kind ≠ some .follow) ∨
      (d.kind ≠ some .request ∧ c.kind ≠ some .follow) := by
    simp only [Control.Independent] at h
    generalize c.kind = k, d.kind = l at *
    rcases k with _ | _ | _ <;> rcases l with _ | _ | _ <;> simp_all
  rcases hk with ⟨hc, hd⟩ | ⟨hd, hc⟩
  · exact act_commute hc hd w
  · exact (act_commute hd hc w).symm

theorem commute (w : PairView) (h : c.Independent d) :
    act c (finish d w) = ((act c w).1, finish d (act c w).2) := by
  have hi₁ := (independent_act w h.symm).symm
  have hi₂ := (independent_act (act d w).2 hi₁.symm).symm
  have ⟨h₁, h₁'⟩ := act_commute_of_independent h w
  have ⟨h₂, h₂'⟩ := act_commute_of_independent hi₁ (act d w).2
  have ⟨h₃, _⟩ := act_commute_of_independent hi₂ (act (act d w).1 (act d w).2).2
  simp only [h₁] at h₂ h₂'
  simp only [finish, h₃, h₂, congrArg Prod.fst h₁', congrArg Prod.fst h₂']

theorem finish_removeFollower (hu : w.uid) (ho : w.other) :
    finish .removeFollower w = { w with following := .list false, followers := false } := by
  obtain ⟨uid, other, _, _, _⟩ := w
  subst hu ho
  rfl

theorem finish_followUser (hu : w.uid) (ho : w.other) (hf : w.following = .list false) :
    finish .followUser w = { w with following := .list true, followers := true } := by
  obtain ⟨uid, other, following, _, _⟩ := w
  subst hu ho hf
  rfl

-- Calls about the two parts are serializable.
def serial : Serial PairView Control where
  act         := act
  finish      := finish
  finish_act  := finish_act
  Independent := Control.Independent
  symm        := Control.Independent.symm
  independent_act := independent_act
  commute     := commute

@[simp]
theorem serial_finish (c : Control) (w : PairView) : serial.finish c w = finish c w :=
  rfl

-- Users with a document have their lists, and the two sides of a follow agree.
structure Regular (w : PairView) : Prop where
  following : w.following = if w.uid then .list w.followers else .absent
  followers : w.followers → w.uid ∧ w.other
  requests : if w.other then ∃ b, w.requests = .list b else w.requests = .absent

namespace Regular

theorem finish_requestFollow (h : w.Regular) :
    finish .requestFollow w = if w.other then { w with requests := .list true } else w := by
  obtain ⟨uid, other, following, followers, requests⟩ := w
  have hr := h.requests
  cases other
  case false => simp [finish, act, accepts]
  case true =>
    obtain ⟨b, rfl⟩ := hr
    cases b <;> rfl

theorem finish_stopFollow (h : w.Regular) :
    finish .stopFollow w = if w.other then { w with requests := .list false } else w := by
  obtain ⟨uid, other, following, followers, requests⟩ := w
  have hr := h.requests
  cases other
  case false => simp [finish, act, accepts]
  case true =>
    obtain ⟨b, rfl⟩ := hr
    cases b <;> rfl

theorem finish_followUser (h : w.Regular) : finish .followUser w =
    if w.uid ∧ w.other then { w with following := .list !w.followers, followers := !w.followers }
    else w := by
  obtain ⟨uid, other, following, followers, requests⟩ := w
  have hf := h.following
  simp only at hf
  subst hf
  cases uid <;> cases other <;> cases followers <;> rfl

theorem setRequests (h : w.Regular) (b : Bool) :
    (if w.other then { w with requests := .list b } else w).Regular := by
  split
  case isTrue ho => exact ⟨h.following, h.followers, by simp [ho]⟩
  case isFalse   => exact h

theorem requestFollow (h : w.Regular) : (finish .requestFollow w).Regular := by
  rw [h.finish_requestFollow]
  exact h.setRequests true

theorem stopFollow (h : w.Regular) : (finish .stopFollow w).Regular := by
  rw [h.finish_stopFollow]
  exact h.setRequests false

theorem followUser (h : w.Regular) : (finish .followUser w).Regular := by
  rw [h.finish_followUser]
  split
  case isTrue hw => exact ⟨by simp [hw], fun _ => hw, h.requests⟩
  case isFalse   => exact h

-- What accepting a request leads to.
theorem finish_accept (h : w.Regular) : finish .stopFollow (finish .followUser w) =
    if w.uid ∧ w.other then
      { w with following := .list !w.followers, followers := !w.followers, requests := .list false }
    else if w.other then { w with requests := .list false }
    else w := by
  rw [h.followUser.finish_stopFollow, h.finish_followUser]
  cases hu : w.uid <;> cases ho : w.other <;> simp [hu, ho]

theorem settle (h : w.Regular) (cs : List Call) :
    (serial.settle (cs.map (·.paused.control)) w).Regular := by
  induction cs generalizing w
  case nil            => exact h
  case cons c cs hi =>
    cases c
    case requestFollow => exact hi h.requestFollow
    case stopFollow    => exact hi h.stopFollow
    case followUser    => exact hi h.followUser

end Regular

theorem regular_of_fresh (h : FirebaseMethods.Fresh s) (u v : Uid) : (pairView u v s).Regular := by
  have of_field {u v : Uid} {f : String} (hf : f ∈ ["followers", "following", "requests"]) :
      Listed.of v (Firestore.field s u f) = if (s u).isSome then .list false else .absent := by
    cases hd : s u
    case none => simp [Listed.of, Firestore.field, hd]
    case some d =>
      obtain ⟨_, _, rfl⟩ := h u d hd
      simp only [List.mem_cons, List.not_mem_nil, or_false] at hf
      rcases hf with rfl | rfl | rfl <;>
        simp [Listed.of, Firestore.field, hd, FirebaseMethods.newProfile, Firestore.Document.of,
          List.lookup]
  have hf : (pairView u v s).followers = false := by
    simp only [pairView, of_field (u := v) (v := u) (f := "followers") (by simp)]
    split <;> rfl
  constructor
  case following =>
    rw [hf]
    simp [pairView, of_field]
  case followers => simp [hf]
  case requests  =>
    simp only [pairView, of_field (u := v) (v := u) (f := "requests") (by simp)]
    cases (s v).isSome <;> simp

end PairView
