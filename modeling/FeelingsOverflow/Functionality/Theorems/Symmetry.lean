import FeelingsOverflow.Functionality.PairView

open Firestore FirebaseMethods Execution Machine

namespace Call

variable {ι : Type} {u v : Uid}

-- The follow graph is stored twice, and both sides tell the same.
def Symmetric (s : Users) : Prop :=
  ∀ u v, v ∈ elements s u "following" ↔ u ∈ elements s v "followers"

-- No call is in flight: each has either not begun or returned.
def Quiescent (calls : ι → Call) (p : Pool Users (Task Uid Unit) ι) : Prop :=
  ∀ i, p.threads i = (calls i).code ∨ machine.finished (p.threads i)

-- The next step of the call is carried out.
def Succeeds (p : Pool Users (Task Uid Unit) ι) (e : ι × Bool) : Prop :=
  e.2 = true ∧ ∀ o ∈ (p.threads e.1).pending, (perform o p.store).isSome

-- The call is about to carry out one of the updates of the branch of `followUser` that makes `u`
-- follow `v`, or of the one that makes `u` unfollow `v`.
def Following (u v : Uid) (c : Task Uid Unit) : Prop :=
  c.pending = some (.update v [("followers", .arrayUnion [u])]) ∨
  c.pending = some (.update u [("following", .arrayUnion [v])])

def Unfollowing (u v : Uid) (c : Task Uid Unit) : Prop :=
  c.pending = some (.update v [("followers", .arrayRemove [u])]) ∨
  c.pending = some (.update u [("following", .arrayRemove [v])])

-- A call of `followUser` does not take its `get` while another one about the same pair of users is
-- between its `get` and its last update and has taken the other branch.
def Unopposed (p : Pool Users (Task Uid Unit) ι) (e : ι × Bool) : Prop :=
  ∀ u v, p.threads e.1 = FirebaseMethods.followUser u v → ∀ j,
    (Following u v (p.threads j) → v ∉ elements p.store u "following") ∧
    (Unfollowing u v (p.threads j) → v ∈ elements p.store u "following")

namespace Control

-- Whether a call has decided to make the first user follow the second.
def branch : Control → Option Bool
  | addFollower | addFollowing       => some true
  | removeFollower | removeFollowing => some false
  | _                                => none

-- Whether a call has already updated the followers.
def halfway (c : Control) : Prop :=
  c = addFollowing ∨ c = removeFollowing

variable {c : Control} {w : PairView}

-- A branch is taken by the `get` of `followUser`, against what it has seen.
theorem branch_next (h : (w.next c).branch = some b) : c.branch = some b ∨
    c = followUser ∧ w.following.isMember = !b ∧ ¬(w.next c).halfway := by
  obtain ⟨_, _, following, _, requests⟩ := w
  cases c
  case followUser =>
    obtain _ | _ | _ | _ := following <;>
      simp_all [PairView.next, branch, Listed.isMember, halfway]
  case requestFollow | stopFollow =>
    obtain _ | _ | _ | _ := requests <;> simp_all [PairView.next, branch]
  all_goals simp_all [PairView.next, Control.next, branch]

-- A branch consists of an update of the followers and one of the following.
theorem apply_of_branch (h : c.branch = some b) :
    (¬c.halfway ∧ (w.apply c).followers = b ∧ (w.next c).branch = some b) ∨
    (c.halfway ∧ (w.apply c).followers = w.followers ∧ (w.apply c).following.isMember = b) := by
  cases c <;>
    simp_all [branch, halfway, PairView.apply, PairView.next, Control.next, Listed.isMember]

theorem apply_of_no_branch (h : c.branch = none) :
    (w.apply c).followers = w.followers ∧ (w.apply c).following = w.following := by
  cases c <;> simp_all [branch, PairView.apply]

end Control

-- The two sides of a follow, together with the calls that are in between: All of them have taken one
-- branch, and the first of their updates precedes the second.
structure Coherent (u v : Uid) (w : PairView) (threads : ι → Paused) : Prop where
  same : ∀ {i j c c' b b'}, threads i = ⟨u, v, c⟩ → threads j = ⟨u, v, c'⟩ → c.branch = some b →
    c'.branch = some b' → b' = b
  first : ∀ {i c b}, threads i = ⟨u, v, c⟩ → c.branch = some b → w.following.isMember = b →
    w.followers = b
  second : ∀ {i c b}, threads i = ⟨u, v, c⟩ → c.branch = some b → c.halfway → w.followers = b
  settled : (∀ i c, threads i = ⟨u, v, c⟩ → c.branch = none) → w.followers = w.following.isMember

namespace Coherent

variable [DecidableEq ι] {w : PairView} {threads : ι → Paused} {c : Control}

-- A call that has taken a branch after a step either had taken it before, or takes it now.
theorem of_update (hi : threads i = ⟨u, v, c⟩) {j c' b}
    (hj : Function.update threads i ⟨u, v, w.next c⟩ j = ⟨u, v, c'⟩) (hb : c'.branch = some b) :
    (∃ c₀, threads j = ⟨u, v, c₀⟩ ∧ c₀.branch = some b ∧ (j ≠ i → c₀ = c')) ∨
    c = .followUser ∧ w.following.isMember = !b ∧ ¬c'.halfway := by
  by_cases he : j = i
  case neg =>
    rw [Function.update_of_ne he] at hj
    exact .inl ⟨c', hj, hb, fun _ => rfl⟩
  case pos =>
    subst he
    simp only [Function.update_self, Paused.mk.injEq, true_and] at hj
    subst hj
    rcases Control.branch_next hb with hb | hb
    · exact .inl ⟨c, hi, hb, (absurd rfl ·)⟩
    · exact .inr hb

section

variable {i : ι} (h : Coherent u v w threads) (hi : threads i = ⟨u, v, c⟩)
  (hc : c = .followUser → ∀ {j c' b}, threads j = ⟨u, v, c'⟩ → c'.branch = some b →
    w.following.isMember = !b)
include h hi

include hc in
theorem same_update {j k c₁ c₂ b₁ b₂}
    (hj : Function.update threads i ⟨u, v, w.next c⟩ j = ⟨u, v, c₁⟩)
    (hk : Function.update threads i ⟨u, v, w.next c⟩ k = ⟨u, v, c₂⟩)
    (hb₁ : c₁.branch = some b₁) (hb₂ : c₂.branch = some b₂) : b₂ = b₁ := by
  rcases of_update hi hj hb₁ with ⟨_, hj, hb₁, _⟩ | ⟨hf, hm₁, _⟩ <;>
    rcases of_update hi hk hb₂ with ⟨_, hk, hb₂, _⟩ | ⟨hf, hm₂, _⟩
  · exact h.same hj hk hb₁ hb₂
  · simpa [hm₂] using hc hf hj hb₁
  · simpa [hm₁, eq_comm] using hc hf hk hb₂
  · simpa [hm₁, eq_comm] using hm₂

-- The other calls that have taken a branch have taken the one of `c`.
theorem branch_update (hb : c.branch = some b) {j c' b'}
    (hj : Function.update threads i ⟨u, v, w.next c⟩ j = ⟨u, v, c'⟩) (hb' : c'.branch = some b') :
    b' = b := by
  rcases of_update hi hj hb' with ⟨_, hj, hb', _⟩ | ⟨rfl, _⟩
  · exact h.same hi hj hb hb'
  · simp [Control.branch] at hb

omit [DecidableEq ι] in
theorem followers_apply (hb : c.branch = some b) : (w.apply c).followers = b := by
  rcases Control.apply_of_branch (w := w) hb with ⟨_, hw, _⟩ | ⟨hh, hw, _⟩
  · exact hw
  · exact hw.trans <| h.second hi hb hh

include hc

theorem step_of_no_branch (hb : c.branch = none) :
    Coherent u v (w.apply c) (Function.update threads i ⟨u, v, w.next c⟩) := by
  have ⟨hw, hw'⟩ := Control.apply_of_no_branch (w := w) hb
  constructor
  case same => exact h.same_update hi hc
  case first =>
    intro j c' b hj hb' hm
    rw [hw'] at hm
    rcases of_update hi hj hb' with ⟨_, hj, hb', _⟩ | ⟨_, hm', _⟩
    · exact hw.trans <| h.first hj hb' hm
    · simp [hm] at hm'
  case second =>
    intro j c' b hj hb' hh
    rcases of_update hi hj hb' with ⟨c₀, hj, hb', hc'⟩ | ⟨_, _, hh'⟩
    · have hn : j ≠ i := by
        rintro rfl
        simp_all
      exact hw.trans <| h.second hj hb' (hc' hn ▸ hh)
    · exact absurd hh hh'
  case settled =>
    intro hn
    rw [hw, hw']
    refine h.settled fun j c' hj => ?_
    by_cases he : j = i
    case pos => simp_all
    case neg => exact hn j c' (by rwa [Function.update_of_ne he])

theorem step_of_branch (hb : c.branch = some b) :
    Coherent u v (w.apply c) (Function.update threads i ⟨u, v, w.next c⟩) := by
  have hw := h.followers_apply hi hb
  constructor
  case same => exact h.same_update hi hc
  case first =>
    intro j c' b' hj hb' _
    rw [h.branch_update hi hb hj hb', hw]
  case second =>
    intro j c' b' hj hb' _
    rw [h.branch_update hi hb hj hb', hw]
  case settled =>
    intro hn
    rcases Control.apply_of_branch (w := w) hb with ⟨_, _, hb'⟩ | ⟨_, _, hm⟩
    · simp [hn i _ (Function.update_self ..)] at hb'
    · rw [hw, hm]

theorem step : Coherent u v (w.apply c) (Function.update threads i ⟨u, v, w.next c⟩) := by
  cases hb : c.branch
  case none => exact h.step_of_no_branch hi hc hb
  case some => exact h.step_of_branch hi hc hb

end

-- Calls that have taken no branch on the pair do not matter.
theorem idle (h : Coherent u v w threads) (hi : ∀ c, threads i = ⟨u, v, c⟩ → c.branch = none)
    (ht : ∀ c, t = ⟨u, v, c⟩ → c.branch = none) :
    Coherent u v w (Function.update threads i t) := by
  have old {j c b} (hj : Function.update threads i t j = ⟨u, v, c⟩) (hb : c.branch = some b) :
      threads j = ⟨u, v, c⟩ := by
    by_cases he : j = i
    case neg => rwa [Function.update_of_ne he] at hj
    case pos =>
      subst he
      simp only [Function.update_self] at hj
      simp [ht c hj] at hb
  constructor
  case same    => exact fun hj hk hb hb' => h.same (old hj hb) (old hk hb') hb hb'
  case first   => exact fun hj hb => h.first (old hj hb) hb
  case second  => exact fun hj hb => h.second (old hj hb) hb
  case settled =>
    refine fun hn => h.settled fun j c hj => ?_
    by_cases he : j = i
    case pos => exact hi c (he ▸ hj)
    case neg => exact hn j c (by rwa [Function.update_of_ne he])

end Coherent

-- The updates of a branch, as they are seen in the code.
theorem following_code {c : Control} (h : c.branch = some true) :
    Following u v (Paused.code ⟨u, v, c⟩) := by
  simp only [Following, Paused.flow_presents_code.pending]
  cases c <;> simp_all [Control.branch, Paused.flow, Control.get, Control.update]

theorem unfollowing_code {c : Control} (h : c.branch = some false) :
    Unfollowing u v (Paused.code ⟨u, v, c⟩) := by
  simp only [Unfollowing, Paused.flow_presents_code.pending]
  cases c <;> simp_all [Control.branch, Paused.flow, Control.get, Control.update]

-- A call that has not begun has taken no branch.
theorem branch_eq_none_of_code {call : Call} {c : Control} (h : Paused.code ⟨u, v, c⟩ = call.code) :
    c.branch = none := by
  have hp := congrArg Async.pending h
  rw [←code_paused, Paused.flow_presents_code.pending, Paused.flow_presents_code.pending] at hp
  cases call <;> cases c <;>
    simp_all [Control.branch, Paused.flow, paused, Control.get, Control.update]

structure Coordinated (p : Pool Users Paused ι) : Prop where
  sound : ∀ i, (p.threads i).Sound p.store
  coherent : ∀ u v, Coherent u v (pairView u v p.store) p.threads

theorem Coordinated.step [DecidableEq ι] {p p' : Pool Users Paused ι} (h : Coordinated p)
    (hs : Succeeds (p.map Paused.code) e) (hu : Unopposed (p.map Paused.code) e)
    (hp : Pool.step Paused.machine p e = some p') : Coordinated p' := by
  obtain ⟨t, s, ht, rfl⟩ := Pool.step_eq_some.mp hp
  constructor
  case sound =>
    exact (show (pairObservation "" "").Sound p from h.sound).step hp
  case coherent =>
    intro u v
    have hc := h.coherent u v
    by_cases hn : (p.threads e.1).pair = (u, v)
    case neg =>
      rw [pairView.other_step (h.sound e.1) hn ht]
      refine hc.idle (fun c hc => absurd (hc ▸ rfl) hn) fun c hc => ?_
      rw [←Paused.step_pair ht, hc] at hn
      exact absurd rfl hn
    case pos =>
      obtain ⟨c, hi⟩ : ∃ c, p.threads e.1 = ⟨u, v, c⟩ := by
        obtain ⟨rfl, rfl⟩ := Prod.mk.inj hn
        exact ⟨_, rfl⟩
      have hb : c = .followUser → ∀ {j c' b}, p.threads j = ⟨u, v, c'⟩ → c'.branch = some b →
          (pairView u v p.store).following.isMember = !b := by
        rintro rfl j c' b hj hb
        have ⟨hf, hu⟩ := hu u v (by simp [hi, Paused.code]) j
        simp only [Pool.map_threads, Pool.map_store, hj] at hf hu
        cases b
        case true  => simpa [←Bool.not_eq_true, following_isMember] using hf (following_code hb)
        case false => simpa [following_isMember] using hu (unfollowing_code hb)
      replace hc := hc.step hi hb
      rw [hi] at ht
      cases Paused.step_cases ht
      case get hg _ hd =>
        rwa [pairView.next_get hg hd, pairView.apply_get _ hg] at hc
      case update hg ho hd =>
        rwa [pairView.next_update _ hg, ←pairView.updated_eq_apply hg hd] at hc
      case fail hw hd =>
        -- Only a `get` can find its document missing.
        have hb : c.branch = none := by
          rcases hw with hw | ⟨_, _, hw⟩
          · cases c <;> simp_all [Control.get, Control.branch]
          · have := hs.right _ (by simpa [hi] using Paused.pending_code.mpr ⟨_, _, hw, rfl⟩)
            simp [perform_update, hd hs.left] at this
        exact (h.coherent u v).idle (by simp [hi, hb]) (by simp [Paused.moveTo, Control.branch])

theorem coordinated_pausedPool (calls : ι → Call) (h : Fresh s) :
    Coordinated (pausedPool calls s) where
  sound i := Paused.sound_paused (calls i) s
  coherent u v := by
    have hb {i c} (hi : (pausedPool calls s).threads i = ⟨u, v, c⟩) : c.branch = none := by
      cases hc : calls i <;> simp_all [pausedPool, paused] <;> simp [←hi, Control.branch]
    constructor
    case same   => exact fun hi _ h => by simp [hb hi] at h
    case first  => exact fun hi h => by simp [hb hi] at h
    case second => exact fun hi h => by simp [hb hi] at h
    case settled =>
      intro
      rw [Bool.eq_iff_iff, followers_iff, following_isMember]
      simp [pausedPool, h.elements_eq]

theorem symmetric_of_run [DecidableEq ι] {calls : ι → Call} (hf : Fresh s)
    (r : Run (Guarded (fun p e => Succeeds p e ∧ Unopposed p e) (Fires (Pool.step machine)))
      (pool calls s) es p)
    (hq : Quiescent calls p) : Symmetric p.store := by
  rw [←pausedPool_map] at r
  obtain ⟨p', r', rfl⟩ := Pool.run_guarded_map_iff Paused.hom |>.mp r
  have ⟨_, h⟩ := r'.invariant (fun h hs => h.step hs.left.left hs.left.right hs.right)
    (coordinated_pausedPool calls hf)
  intro u v
  have hw := (h u v).settled fun i c hi => by
    rcases hq i with hq | hq <;> simp only [Pool.map_threads, hi] at hq
    · exact branch_eq_none_of_code hq
    · rw [show c = .returned from (Paused.finished_code _).mp hq]
      rfl
  rw [Bool.eq_iff_iff, followers_iff, following_isMember] at hw
  exact hw.symm

instance (p : Pool Users (Task Uid Unit) ι) (e : ι × Bool) : Decidable (Succeeds p e) :=
  inferInstanceAs (Decidable (_ ∧ _))

-- Whether a call is about to add or remove the user `u`, or to change a list of `u`.
def concerns (u : Uid) (c : Task Uid Unit) : Bool :=
  match c.pending with
  | some (.update i [(_, .arrayUnion [x])]) | some (.update i [(_, .arrayRemove [x])]) =>
    i = u ∨ x = u
  | _ => false

def isolated (p : Pool Users (Task Uid Unit) ι) [Fintype ι] (e : ι × Bool) : Bool :=
  match (p.threads e.1).pending with
  | some (.get u) => ∀ j, ¬concerns u (p.threads j)
  | _             => true

theorem unopposed_of_isolated [Fintype ι] {p : Pool Users (Task Uid Unit) ι} (h : isolated p e) :
    Unopposed p e := by
  intro u v he j
  have hj : ¬concerns u (p.threads j) := by
    simp only [isolated, he, Paused.followUser_eq, Paused.awaitGet, Async.pending] at h
    simpa using of_decide_eq_true h j
  constructor <;> rintro (h | h) <;> simp [concerns, h] at hj

-- Two calls whose steps alternate.
def alternatingCalls : Fin 2 → Call
  | 0 => .followUser "alice" "bob"
  | 1 => .followUser "carol" "bob"

def alternating : List (Fin 2 × Bool) :=
  [(0, true), (1, true), (0, true), (1, true), (0, true), (1, true)]

theorem symmetric_of_alternating : ∃ p, Run (Fires (Pool.step machine))
      (pool alternatingCalls (registered ["alice", "bob", "carol"])) alternating p ∧
    Symmetric p.store := by
  have ⟨p, r, hq⟩ := Fires.run_guarded_of_exec (Pool.step machine)
    (fun p e => Succeeds p e ∧ isolated p e)
    (pool alternatingCalls (registered ["alice", "bob", "carol"])) alternating
    (fun p => ∀ i, machine.finished (p.threads i)) (by decide)
  simp only [decide_eq_true_eq] at hq
  refine ⟨p, r.unguard, symmetric_of_run (fresh_registered _) (r.mono ?_) fun i => .inr (hq i)⟩
  exact fun h => ⟨⟨h.left.left, unopposed_of_isolated h.left.right⟩, h.right⟩

-- Three calls about one pair, the last of which takes its `get` while another one is halfway.
def racingCalls (_ : Fin 3) : Call :=
  .followUser "alice" "bob"

def race : List (Fin 3 × Bool) := [
  (0, true), (1, true), (0, true), (0, true), (2, true), (1, true), (2, true), (2, true), (1, true)
]

theorem not_symmetric_of_race : ∃ p, Run (Guarded Succeeds (Fires (Pool.step machine)))
      (pool racingCalls (registered ["alice", "bob"])) race p ∧
    Quiescent racingCalls p ∧ ¬Symmetric p.store := by
  have ⟨p, r, h⟩ := Fires.run_guarded_of_exec (Pool.step machine) Succeeds
    (pool racingCalls (registered ["alice", "bob"])) race
    (fun p => (∀ i, machine.finished (p.threads i)) ∧
      "bob" ∈ elements p.store "alice" "following" ∧ "alice" ∉ elements p.store "bob" "followers")
    (by decide)
  simp only [decide_eq_true_eq] at h
  exact ⟨p, r, fun i => .inr (h.left i), fun hs => h.right.right <| (hs _ _).mp h.right.left⟩

end Call
