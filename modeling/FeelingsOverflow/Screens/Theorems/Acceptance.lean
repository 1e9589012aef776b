import FeelingsOverflow.Screens.Completed

open Firestore FirebaseMethods Execution Call

namespace App

theorem undisturbed_map {p : App θ} (f : θ → θ') :
    Undisturbed u v (p.map f) e ↔ Undisturbed u v p e := by
  refine and_congr Iff.rfl ⟨fun h i l he hl => h i (l.map f) he (by simp [hl]), ?_⟩
  intro h i l he hl
  rw [map_calls, List.getElem?_map, Option.map_eq_some_iff] at hl
  obtain ⟨l₀, hl, rfl⟩ := hl
  exact h i l₀ he hl

-- What an acceptance has led to when its two calls have returned.
def Accepted (u v : Uid) (s : Users) : Prop :=
  u ∈ elements s v "followers" ∧ v ∈ elements s u "following" ∧ u ∉ elements s v "requests"

theorem accepted_iff : Accepted u v s ↔ (pairView u v s).followers ∧
    (pairView u v s).following.isMember ∧ ¬(pairView u v s).requests.isMember := by
  simp only [Accepted, followers_iff, following_isMember, requests_isMember]

theorem accepted_after {w : PairView} (h : w.Regular) (ho : w.other) :
    let w' := Resting.after u v [followUser u v, stopFollow u v] w
    w'.followers ∧ w'.following.isMember ∧ ¬w'.requests.isMember ↔ w.uid ∧ ¬w.followers := by
  have hf := h.following
  simp only [Resting.after_accept h]
  cases hu : w.uid <;> simp_all [Listed.isMember]

theorem Resting.accepted {p p₁ p₂ : App Paused} (h : p.Resting)
    (hk : p.screens.searchTabs[k]? = some tab)
    (hq : u ∈ elements p.store tab.currentUserUid "requests")
    (hs : pausedStep p (.user (.accept k u)) = some p₁)
    (r : Run (Guarded (Undisturbed u tab.currentUserUid) (Fires pausedStep)) p₁ es p₂)
    (hf : ∀ l ∈ p₂.calls, l.call.pair = (u, tab.currentUserUid) →
      Paused.machine.finished l.thread) :
    Accepted u tab.currentUserUid p₂.store ↔
      (p.store u).isSome ∧ u ∉ elements p.store tab.currentUserUid "followers" := by
  cases stepOf_iff.mp hs
  case user hr =>
    have hp := r.invariant (fun h hs => h.step hs.left (stepOf_iff.mp hs.right))
      (h.serializable hr u tab.currentUserUid)
    have hv := hp.pairView_eq <| controls_returned fun l hl hp' =>
      hf l hl ((hp.sound l hl).pair ▸ hp')
    cases hr
    case accept tab' hk' hu =>
      obtain rfl := Option.some.inj (hk.symm.trans hk')
      have ho : (pairView u tab.currentUserUid p.store).other := isSome_of_mem_elements hq
      rw [accepted_iff, hv, ←followers_iff]
      exact accepted_after (h.regular ..) ho

theorem accepted_iff_of_run (hf : Fresh s) (r : Run (Fires complete) (initial s) as p)
    (hk : p.screens.searchTabs[k]? = some tab)
    (hq : u ∈ elements p.store tab.currentUserUid "requests")
    (hs : step p (.user (.accept k u)) = some p₁)
    (r₁ : Run (Guarded (Undisturbed u tab.currentUserUid) (Fires step)) p₁ es p₂)
    (hr : ∀ l ∈ p₂.calls, l.call.pair = (u, tab.currentUserUid) →
      Call.machine.finished l.thread) :
    Accepted u tab.currentUserUid p₂.store ↔
      (p.store u).isSome ∧ u ∉ elements p.store tab.currentUserUid "followers" := by
  obtain ⟨q, rq, rfl⟩ := Fires.run_map_iff complete_map (t := initial s) |>.mp r
  rw [step_map] at hs
  obtain ⟨q₁, hq₁, rfl⟩ := Option.map_eq_some_iff.mp hs
  obtain ⟨q₂, rq₂, rfl⟩ := run_guarded_map_iff.mp r₁
  have h := rq.invariant (fun h hs => (h.complete hs).left) (resting_initial hf)
  refine h.accepted hk hq hq₁ (rq₂.mono fun h => ⟨(undisturbed_map _).mp h.left, h.right⟩) ?_
  intro l hl hp
  have := hr (l.map Paused.code) (List.mem_map_of_mem hl) hp
  exact l.thread.finished_iff.mpr ((Paused.finished_code _).mp this)

-- Alice requests to follow Bob.
def pendingRequest : List (UserAction × List Event) := [
  (.openProfile "alice" "bob" (some 0), []),
  (.press 0 .follow, [.call 0 true, .call 0 true]),
  (.openSearchTab "bob" true, [])
]

theorem accepted_of_pendingRequest : ∃ p p₁ p₂,
    Run (Fires complete) (initial (registered ["alice", "bob"])) pendingRequest p ∧
    step p (.user (.accept 0 "alice")) = some p₁ ∧
    Run (Guarded (Undisturbed "alice" "bob") (Fires step)) p₁
      [.call 2 true, .call 1 true, .call 1 true, .call 2 true, .call 1 true] p₂ ∧
    (Accepted "alice" "bob" p₂.store ↔
      (p.store "alice").isSome ∧ "alice" ∉ elements p.store "bob" "followers") := by
  have ⟨p, r, h⟩ := Fires.run_of_exec complete (initial (registered ["alice", "bob"]))
    pendingRequest (fun p => p.screens.searchTabs[0]? = some ⟨"bob", ["alice"]⟩ ∧
      "alice" ∈ elements p.store "bob" "requests" ∧
      (step p (.user (.accept 0 "alice"))).any fun p₁ =>
        (Fires.exec step p₁
          [.call 2 true, .call 1 true, .call 1 true, .call 2 true, .call 1 true]).any fun p₂ =>
            ∀ l ∈ p₂.calls, Call.machine.finished l.thread) (by decide)
  simp only [Option.any_eq_true, decide_eq_true_eq] at h
  obtain ⟨hk, hq, p₁, hs, p₂, he, hr⟩ := h
  have r₁ := run_undisturbed he rfl "alice" "bob"
  exact ⟨p, p₁, p₂, r, hs, r₁,
    accepted_iff_of_run (fresh_registered _) r hk hq hs r₁ fun l hl _ => hr l hl⟩

-- Bob accepts Alice, whose page then still offers to withdraw the request, and to follow.
def requestWhileFollowing : List (UserAction × List Event) := [
  (.openProfile "alice" "bob" (some 0), []),
  (.press 0 .follow, [.call 0 true, .call 0 true]),
  (.openSearchTab "bob" true, []),
  (.accept 0 "alice", [.call 1 true, .call 1 true, .call 1 true, .call 2 true, .call 2 true]),
  (.press 0 .requestSent, [.call 3 true]),
  (.press 0 .follow, [.call 4 true, .call 4 true]),
  (.openSearchTab "bob" true, [])
]

theorem not_accepted_of_requestWhileFollowing : ∃ p p₁ p₂ tab,
    Run (Fires complete) (initial (registered ["alice", "bob"])) requestWhileFollowing p ∧
    p.screens.searchTabs[1]? = some tab ∧ tab.currentUserUid = "bob" ∧
    "alice" ∈ elements p.store "bob" "requests" ∧
    step p (.user (.accept 1 "alice")) = some p₁ ∧
    Run (Guarded (Undisturbed "alice" "bob") (Fires step)) p₁
      [.call 5 true, .call 5 true, .call 5 true, .call 6 true, .call 6 true] p₂ ∧
    (∀ l ∈ p₂.calls, Call.machine.finished l.thread) ∧
    "alice" ∉ elements p₂.store "bob" "followers" := by
  have ⟨p, r, h⟩ := Fires.run_of_exec complete (initial (registered ["alice", "bob"]))
    requestWhileFollowing (fun p => p.screens.searchTabs[1]? = some ⟨"bob", ["alice"]⟩ ∧
      "alice" ∈ elements p.store "bob" "requests" ∧
      (step p (.user (.accept 1 "alice"))).any fun p₁ =>
        (Fires.exec step p₁
          [.call 5 true, .call 5 true, .call 5 true, .call 6 true, .call 6 true]).any fun p₂ =>
            (∀ l ∈ p₂.calls, Call.machine.finished l.thread) ∧
              "alice" ∉ elements p₂.store "bob" "followers") (by decide)
  simp only [Option.any_eq_true, decide_eq_true_eq] at h
  obtain ⟨hk, hq, p₁, hs, p₂, he, hr, hn⟩ := h
  exact ⟨p, p₁, p₂, _, r, hk, rfl, hq, hs, run_undisturbed he rfl "alice" "bob", hr, hn⟩

end App
