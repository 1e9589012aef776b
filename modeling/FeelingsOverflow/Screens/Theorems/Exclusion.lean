import FeelingsOverflow.Screens.Completed

open Firestore FirebaseMethods Execution Call

-- Nobody waits for being accepted by a user whom they follow.
def Users.Exclusive (s : Users) : Prop :=
  ∀ u v, ¬(u ∈ elements s v "requests" ∧ u ∈ elements s v "followers")

theorem Users.exclusive_iff {s : Users} : s.Exclusive ↔
    ∀ u v, ¬((pairView u v s).requests.isMember ∧ (pairView u v s).followers) := by
  simp only [Exclusive, requests_isMember, followers_iff]

namespace App

-- A tap on `Follow` or `Unfollow` fits what is stored: `Follow` is tapped by a user who does not
-- follow, `Unfollow` by one who follows, or has at least not requested to.
def Fits (p : App θ) : UserAction → Prop
  | .press i .follow => ∀ page ∈ p.screens.profiles[i]?,
    page.currentUser ∉ elements p.store page.uid "followers"
  | .press i .unfollow => ∀ page ∈ p.screens.profiles[i]?,
    page.uid ∈ elements p.store page.currentUser "following" ∨
    page.currentUser ∉ elements p.store page.uid "requests"
  | _ => True

namespace Resting

variable {p p' : App Paused}

-- Whether the exclusion is kept by a single call is decided by the pair it is about.
theorem exclusive_single {c : Call} (h : p.store.Exclusive)
    (hv : ∀ u v, pairView u v p'.store = after u v [c] (pairView u v p.store)) :
    p'.store.Exclusive ↔
      let w := PairView.finish c.paused.control (pairView c.pair.1 c.pair.2 p.store)
      ¬(w.requests.isMember ∧ w.followers) := by
  rw [Users.exclusive_iff] at h ⊢
  constructor
  · intro he
    have := he c.pair.1 c.pair.2
    rwa [hv, after_single, if_pos rfl] at this
  · intro hw u v
    rw [hv, after_single]
    split
    case isTrue hc  => rwa [hc] at hw
    case isFalse hc => exact h u v

theorem exclusive_follow (h : p.Resting) (he : p.store.Exclusive)
    (hv : ∀ u' v', pairView u' v' p'.store = after u' v' [requestFollow u v] (pairView u' v' p.store)) :
    p'.store.Exclusive ↔ u ∉ elements p.store v "followers" := by
  have hw := (h.regular u v).followers
  rw [exclusive_single he hv, ←followers_iff]
  simp only [paused, pair, (h.regular u v).finish_requestFollow]
  split
  case isTrue  => simp [Listed.isMember]
  case isFalse => grind

theorem exclusive_stopFollow (h : p.Resting) (he : p.store.Exclusive)
    (hv : ∀ u' v', pairView u' v' p'.store = after u' v' [stopFollow u v] (pairView u' v' p.store)) :
    p'.store.Exclusive := by
  have hw := (Users.exclusive_iff.mp he) u v
  rw [exclusive_single he hv]
  simp only [paused, pair, (h.regular u v).finish_stopFollow]
  split
  case isTrue  => simp [Listed.isMember]
  case isFalse => exact hw

theorem exclusive_unfollow (h : p.Resting) (he : p.store.Exclusive) (hu : (p.store u).isSome)
    (hv : ∀ u' v', pairView u' v' p'.store = after u' v' [followUser u v] (pairView u' v' p.store)) :
    p'.store.Exclusive ↔
      v ∈ elements p.store u "following" ∨ u ∉ elements p.store v "requests" := by
  have hw := h.regular u v
  have hu : (pairView u v p.store).uid = true := hu
  have hf := hw.following
  have hr := hw.requests
  rw [exclusive_single he hv, ←following_isMember, ←requests_isMember]
  simp only [paused, pair, hw.finish_followUser]
  simp only [hu, if_true, true_and] at hf ⊢
  split
  case isTrue  => simp [hf, Listed.isMember]; grind
  case isFalse ho =>
    simp only [ho, Bool.false_eq_true, if_false] at hr
    simp [hr, Listed.isMember]

theorem exclusive_accept (h : p.Resting) (he : p.store.Exclusive)
    (hv : ∀ u' v', pairView u' v' p'.store =
      after u' v' [followUser u v, stopFollow u v] (pairView u' v' p.store)) :
    p'.store.Exclusive := by
  rw [Users.exclusive_iff] at he ⊢
  intro u' v'
  rw [hv]
  by_cases hp : (u, v) = (u', v')
  case neg => simpa [after, pair, hp] using he u' v'
  case pos =>
    obtain ⟨rfl, rfl⟩ := Prod.mk.inj hp
    rw [after_accept (h.regular u v)]
    have hn := he u v
    split
    · simp [Listed.isMember]
    · split
      · simp [Listed.isMember]
      · exact hn

theorem exclusive_iff_fits (h : p.Resting) (he : p.store.Exclusive)
    (hc : pausedComplete p (a, es) = some p') : p'.store.Exclusive ↔ p.Fits a := by
  have ⟨_, sc, cs, hr, hv⟩ := h.complete hc
  cases hr
  case press i page b hi hb =>
    cases b
    case unfollow =>
      rw [h.represented.screens.launches_unfollow hi hb] at hv
      have hs := h.shown page (List.mem_of_getElem? hi) (OtherUserProfile.build_unfollow hb)
      simp [h.exclusive_unfollow he hs hv, Fits, hi]
    case requestSent => simp [h.exclusive_stopFollow he hv, Fits]
    case follow      => simp [h.exclusive_follow he hv, Fits, hi]
  case accept => simp [h.exclusive_accept he hv, Fits]
  case reject => simp [h.exclusive_stopFollow he hv, Fits]
  all_goals
    simp only [after_nil] at hv
    simpa [Fits, Users.exclusive_iff, hv] using Users.exclusive_iff.mp he

end Resting

theorem exclusive_of_run (hf : Fresh s)
    (r : Run (Guarded (fun p a => Fits p a.1) (Fires complete)) (initial s) as p) :
    p.store.Exclusive ∧
    ∀ a es p', complete p (a, es) = some p' → (p'.store.Exclusive ↔ p.Fits a) := by
  obtain ⟨q, rq, rfl⟩ := Fires.run_guarded_map_iff complete_map (t := initial s) |>.mp r
  have h : q.Resting ∧ q.store.Exclusive := by
    refine rq.invariant (I := fun q => q.Resting ∧ q.store.Exclusive) (fun h hs => ?_)
      ⟨resting_initial hf, fun u v => by simp [initial, hf.elements_eq]⟩
    exact ⟨(h.left.complete hs.right).left, (h.left.exclusive_iff_fits h.right hs.right).mpr hs.left⟩
  refine ⟨h.right, fun a es p' hc => ?_⟩
  rw [complete_map] at hc
  obtain ⟨q', hq, rfl⟩ := Option.map_eq_some_iff.mp hc
  exact h.left.exclusive_iff_fits h.right hq

instance (p : App θ) (a : UserAction) : Decidable (Fits p a) := by
  unfold Fits
  split <;> infer_instance

-- Alice requests to follow Bob, who accepts, and stops following him after that.
def fittingTaps : List (UserAction × List Event) := [
  (.openProfile "alice" "bob" (some 0), []),
  (.press 0 .follow, [.call 0 true, .call 0 true]),
  (.openSearchTab "bob" true, []),
  (.accept 0 "alice", [.call 1 true, .call 2 true, .call 1 true, .call 2 true, .call 1 true]),
  (.openProfile "alice" "bob" (some 0), []),
  (.press 1 .unfollow, [.call 3 true, .call 3 true, .call 3 true, .resume 3])
]

theorem exclusive_of_fittingTaps : ∃ p,
    Run (Guarded (fun p a => Fits p a.1) (Fires complete)) (initial (registered ["alice", "bob"]))
      fittingTaps p ∧
    p.store.Exclusive := by
  have ⟨p, r, _⟩ := Fires.run_guarded_of_exec complete (fun p a => Fits p a.1)
    (initial (registered ["alice", "bob"])) fittingTaps (fun _ => true) (by decide)
  exact ⟨p, r, (exclusive_of_run (fresh_registered _) r).left⟩

-- After Bob has accepted, Alice's page still offers to withdraw the request, and then to follow.
def staleTaps : List (UserAction × List Event) := [
  (.openProfile "alice" "bob" (some 0), []),
  (.press 0 .follow, [.call 0 true, .call 0 true]),
  (.openSearchTab "bob" true, []),
  (.accept 0 "alice", [.call 1 true, .call 1 true, .call 1 true, .call 2 true, .call 2 true]),
  (.press 0 .requestSent, [.call 3 true]),
  (.press 0 .follow, [.call 4 true, .call 4 true])
]

theorem not_exclusive_of_staleTaps : ∃ p,
    Run (Fires complete) (initial (registered ["alice", "bob"])) staleTaps p ∧
    ¬p.store.Exclusive := by
  have ⟨p, r, h⟩ := Fires.run_of_exec complete (initial (registered ["alice", "bob"])) staleTaps
    (fun p => "alice" ∈ elements p.store "bob" "requests" ∧
      "alice" ∈ elements p.store "bob" "followers") (by decide)
  exact ⟨p, r, fun he => he "alice" "bob" (of_decide_eq_true h)⟩

end App
