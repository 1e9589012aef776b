import FeelingsOverflow.Functionality.Theorems.Symmetry
import FeelingsOverflow.Functionality.Theorems.Atomicity
import FeelingsOverflow.Functionality.Columns
import FeelingsOverflow.Functionality.Settle

open Execution Firestore FirebaseMethods Machine

namespace Call

variable {ι : Type} {s s' : Users} {u v : Uid}

-- A call of `followUser` does not take its `get` while another one about the same pair of users is
-- between its `get` and its last update.
def Undisturbed (p : Pool Users (Task Uid Unit) ι) (e : ι × Bool) : Prop :=
  ∀ u v, p.threads e.1 = FirebaseMethods.followUser u v →
    ∀ j, ¬Following u v (p.threads j) ∧ ¬Unfollowing u v (p.threads j)

-- What each of the calls is to do to the lists of followed users.
def onFollowing : Call → (Uid → Option Value) → Uid → Option Value
  | followUser u v, r =>
    if (r v).isSome then Column.update r u (edit (decide (v ∈ coercedArray (r u))) v) else r
  | _, r => r

namespace Control

variable {c : Control} {w : PairView}

theorem following_apply (h : ¬c.halfway) : (w.apply c).following = w.following := by
  cases c <;> simp_all [halfway, PairView.apply]

theorem branch_next_of_halfway (h : c.halfway) : (w.next c).branch = none := by
  rcases h with rfl | rfl <;> rfl

theorem other_of_halfway_next (h : (w.next c).halfway) (ha : w.accepts c) : w.other := by
  obtain ⟨_, _, following, _, requests⟩ := w
  cases c
  case followUser => obtain _ | _ | _ | _ := following <;> simp_all [PairView.next, halfway]
  case' requestFollow | stopFollow =>
    obtain _ | _ | _ | _ := requests <;> simp_all [PairView.next, halfway]
  all_goals simp_all [PairView.next, next, halfway, PairView.accepts]

theorem kind_resume {data : Document} (hg : c.get u v = some i) (hr : c.resume u v data ≠ returned) :
    (c.resume u v data).kind = c.kind := by
  cases c <;> simp only [get, reduceCtorEq] at hg <;> simp only [resume] at hr ⊢ <;>
    grind [kind]

end Control

-- The calls that have taken a branch: Each of them is the only one about its pair, and the list of
-- followed users is still as it was when the branch was taken.
structure Decided (p : Pool Users Paused ι) : Prop where
  sound : ∀ i, (p.threads i).Sound p.store
  lists : HasLists "following" p.store
  stale : ∀ {i b}, (p.threads i).control.branch = some b →
    (pairView (p.threads i).uid (p.threads i).other p.store).following.isMember = !b
  other : ∀ {i}, (p.threads i).control.halfway → (p.store (p.threads i).other).isSome
  alone : ∀ {i j}, (p.threads i).control.branch.isSome → (p.threads j).control.branch.isSome →
    (p.threads i).pair = (p.threads j).pair → i = j

-- What a step of a call does to the list that its pair is about.
theorem following_step {t t' : Paused} (h : t.Sound s)
    (hs : Paused.machine.step t ok s = some (t', s')) (hp : t.control.halfway → t.pair ≠ (u, v)) :
    (pairView u v s').following.isMember = (pairView u v s).following.isMember := by
  by_cases hn : t.pair = (u, v)
  case neg => rw [pairView.other_step h hn hs]
  case pos =>
    obtain ⟨rfl, rfl⟩ := Prod.mk.inj hn
    rcases PairView.step_cases (pairView.own_step hs) with ⟨_, _, _, hw⟩ | ⟨_, _, hw⟩
    · rw [hw, Control.following_apply fun hh => hp hh rfl]
    · rw [hw]

theorem isSome_step {t t' : Paused} (hs : Paused.machine.step t ok s = some (t', s')) (x : Uid) :
    (s' x).isSome = (s x).isSome := by
  cases Paused.step_cases hs
  case update => exact updated_isSome ..
  all_goals rfl

-- A call has a branch after a step when it had one before, or when it takes it by its `get`.
theorem branch_step {t t' : Paused} (hs : Paused.machine.step t ok s = some (t', s'))
    (hb : t'.control.branch = some b) :
    (t.control.branch = some b ∧ ¬t.control.halfway) ∨ t.control = .followUser ∧ ¬t'.control.halfway ∧
      (pairView t.uid t.other s).following.isMember = !b := by
  rcases PairView.step_cases (pairView.own_step hs) with ⟨_, _, rfl, _⟩ | ⟨_, rfl, _⟩
  · rw [Paused.moveTo_control] at hb ⊢
    rcases Control.branch_next hb with hb' | ⟨hc, hm, hh⟩
    · exact .inl ⟨hb', fun hh => by simp [Control.branch_next_of_halfway hh] at hb⟩
    · exact .inr ⟨hc, hh, hm⟩
  · simp [Control.branch] at hb

theorem halfway_step {t t' : Paused} (hs : Paused.machine.step t ok s = some (t', s'))
    (hh : t'.control.halfway) : (s t.other).isSome := by
  rcases PairView.step_cases (pairView.own_step hs) with ⟨_, ha, rfl, _⟩ | ⟨_, rfl, _⟩
  · exact Control.other_of_halfway_next hh ha
  · simp [Control.halfway] at hh

namespace Decided

variable [DecidableEq ι] {p p' : Pool Users Paused ι}

theorem step (h : Decided p) (hp : p.step Paused.machine e = some p')
    (hu : (p.threads e.1).control = .followUser →
      ∀ j, (p.threads j).pair = (p.threads e.1).pair → (p.threads j).control.branch = none) :
    Decided p' := by
  have hsound := (show (pairObservation "" "").Sound p from h.sound).step hp
  obtain ⟨t, s, ht, rfl⟩ := Pool.step_eq_some.mp hp
  have hpair := Paused.step_pair ht
  have cases (j : ι) : (j = e.1 ∧ Function.update p.threads e.1 t j = t) ∨
      (j ≠ e.1 ∧ Function.update p.threads e.1 t j = p.threads j) := by
    by_cases hj : j = e.1
    case pos => exact .inl ⟨hj, by simp [hj]⟩
    case neg => exact .inr ⟨hj, by simp [hj]⟩
  constructor
  case sound => exact hsound
  case lists => exact Paused.hasLists_step h.lists (by decide) ht
  case stale =>
    intro j b hb
    simp only at hb ⊢
    rcases cases j with ⟨_, hj⟩ | ⟨hn, hj⟩ <;> rw [hj] at hb ⊢
    · obtain ⟨hu, ho⟩ := Prod.mk.inj hpair
      rw [hu, ho]
      rcases branch_step ht hb with ⟨hb', hh⟩ | ⟨hc, hh, hm⟩
      · rw [following_step (h.sound _) ht fun hh' => absurd hh' hh]
        exact h.stale hb'
      · rw [following_step (h.sound _) ht fun hh' => by simp [hc, Control.halfway] at hh']
        exact hm
    · rw [following_step (h.sound _) ht fun hh he => hn ?_]
      · exact h.stale hb
      · refine h.alone (by simp [hb]) ?_ he.symm
        rcases hh with hh | hh <;> simp [hh, Control.branch]
  case other =>
    intro j hh
    rcases cases j with ⟨_, hj⟩ | ⟨_, hj⟩ <;> simp only [hj, isSome_step ht] at hh ⊢
    · rw [(Prod.mk.inj hpair).right]
      exact halfway_step ht hh
    · exact h.other hh
  case alone =>
    -- A call that takes a branch now is alone by the condition.
    have new {j : ι} (hn : j ≠ e.1) (hb : t.control.branch.isSome)
        (hb' : (p.threads j).control.branch.isSome) : (p.threads j).pair ≠ t.pair := by
      intro he
      obtain ⟨b, hb⟩ := Option.isSome_iff_exists.mp hb
      rw [hpair] at he
      rcases branch_step ht hb with ⟨hb₀, _⟩ | ⟨hc, _⟩
      · exact hn <| h.alone hb' (by simp [hb₀]) he
      · simp [hu hc j he] at hb'
    intro i j hi hj he
    simp only at hi hj he
    rcases cases i with ⟨hi', hti⟩ | ⟨hi', hti⟩ <;> rcases cases j with ⟨hj', htj⟩ | ⟨hj', htj⟩ <;>
      rw [hti] at hi he <;> rw [htj] at hj he
    · rw [hi', hj']
    · exact absurd he.symm (new hj' hi hj)
    · exact absurd he (new hi' hj hi)
    · exact h.alone hi hj he

omit [DecidableEq ι] in
theorem paused (calls : ι → Call) (hs : HasLists "following" s) : Decided (pausedPool calls s) := by
  have hb (i : ι) : ((pausedPool calls s).threads i).control.branch = none ∧
      ¬((pausedPool calls s).threads i).control.halfway := by
    simp only [pausedPool]
    cases calls i <;> simp [Call.paused, Control.branch, Control.halfway]
  exact {
    sound i := Paused.sound_paused (calls i) s
    lists   := hs
    stale h := by simp [hb] at h
    other h := absurd h (hb _).right
    alone h := by simp [hb] at h
  }

end Decided

-- The call takes its steps at the given point.
structure Executes (k : Call) (t : Paused) : Prop where
  pair : t.pair = k.pair
  kind : t.control.kind = k.paused.control.kind

namespace Executes

variable {k : Call} {t : Paused}

theorem control_ne (h : Executes k t) : t.control ≠ .returned := by
  intro hc
  have hk := h.kind
  cases k <;> simp [hc, Control.kind, Call.paused] at hk

theorem moveTo (h : Executes k t) (hc : c.kind = t.control.kind) : Executes k (t.moveTo c) :=
  ⟨h.pair, hc.trans h.kind⟩

theorem onFollowing_of_request (h : Executes k t) (hk : t.control.kind = some .request)
    (r : Uid → Option Value) : k.onFollowing r = r := by
  have hk' := hk.symm.trans h.kind
  cases k
  case followUser => simp [Control.kind, Call.paused] at hk'
  all_goals rfl

theorem onFollowing_of_follow (h : Executes k t) (hk : t.control.kind = some .follow)
    (r : Uid → Option Value) : k.onFollowing r =
      if (r t.other).isSome then
        Column.update r t.uid (edit (decide (t.other ∈ coercedArray (r t.uid))) t.other)
      else r := by
  have hk' := hk.symm.trans h.kind
  have hp := h.pair
  cases k
  case followUser =>
    obtain ⟨rfl, rfl⟩ := Prod.mk.inj hp
    rfl
  all_goals simp [Control.kind, Call.paused] at hk'

-- A call of a missing user has nothing to do.
theorem of_missing (h : Executes k t) (ha : t.control.awaits t.uid t.other i) (hn : s i = none) :
    column "following" s = k.onFollowing (column "following" s) := by
  cases hk : t.control.kind
  case none => exact absurd (by revert hk; cases t.control <;> simp [Control.kind]) h.control_ne
  case some d =>
    cases d
    case request => rw [h.onFollowing_of_request hk]
    case follow =>
      rw [h.onFollowing_of_follow hk]
      split
      case isFalse => rfl
      case isTrue ho =>
        refine Eq.symm <| Column.update_eq_self fun x hx => ?_
        obtain ⟨u, v, c⟩ := t
        cases c <;> simp [Control.awaits, Control.get, Control.update, Control.kind] at ha hk
        all_goals
          subst ha
          simp [column_eq_none hn] at hx ho

-- With a list, a call of `followUser` takes one of its branches.
theorem of_get (h : Executes k t) (hs : HasLists "following" s)
    (hg : t.control.get t.uid t.other = some i) (hd : s i = some data) :
    (t.control.resume t.uid t.other data = .returned ∧ ∀ r, k.onFollowing r = r) ∨
    Executes k (t.moveTo (t.control.resume t.uid t.other data)) := by
  by_cases hr : t.control.resume t.uid t.other data = .returned
  case neg => exact .inr <| h.moveTo <| Control.kind_resume hg hr
  case pos =>
    refine .inl ⟨hr, h.onFollowing_of_request ?_⟩
    have ⟨xs, hx⟩ := hs i (by simp [hd])
    have hx' : data "following" = some (.array xs) := by simpa [column, field, hd] using hx
    obtain ⟨u, v, c⟩ := t
    cases c <;> simp only [Control.get, reduceCtorEq] at hg
    case followUser => simp only [Control.resume, hx'] at hr; split at hr <;> simp at hr
    all_goals rfl

end Executes

namespace Decided

variable {p : Pool Users Paused ι} {k : Call}

theorem of_update (h : Decided p) (he : Executes k (p.threads i))
    (hu : (p.threads i).control.update (p.threads i).uid (p.threads i).other = some (x, f, value))
    (hx : (p.store x).isSome) :
    ((p.threads i).control.next = .returned ∧
      column "following" (updated p.store x [(f, value)]) =
        k.onFollowing (column "following" p.store)) ∨
    (Executes k ((p.threads i).moveTo (p.threads i).control.next) ∧
      column "following" (updated p.store x [(f, value)]) = column "following" p.store) := by
  have hst {b} := @h.stale i b
  have hot := @h.other i
  have hkf := he.onFollowing_of_follow
  have hkr := he.onFollowing_of_request
  have hmv {c : Control} (hc : c.kind = (p.threads i).control.kind) := he.moveTo hc
  generalize p.threads i = t at *
  obtain ⟨u, v, c⟩ := t
  cases c <;> simp only [Control.update, Option.some.injEq, Prod.mk.injEq, reduceCtorEq] at hu
  all_goals obtain ⟨rfl, rfl, rfl⟩ := hu
  case' createRequest | addRequest | removeRequest =>
    refine .inl ⟨rfl, ?_⟩
    rw [hkr rfl]
    exact Column.updated_of_ne (by decide) ..
  case' removeFollower | addFollower =>
    exact .inr ⟨hmv rfl, Column.updated_of_ne (by decide) ..⟩
  -- The second of the updates does what was decided, as the list is still the same.
  case' removeFollowing | addFollowing =>
    have ho := h.lists.column_isSome.mpr <| hot (by simp [Control.halfway])
    refine .inl ⟨rfl, ?_⟩
    rw [hkf rfl, Column.updated_eq h.lists hx, if_pos ho]
  case removeFollowing =>
    have hm : v ∈ coercedArray (column "following" p.store u) := following_isMember.mp (hst rfl)
    simp [edit, hm]
  case addFollowing =>
    have hm : v ∉ coercedArray (column "following" p.store u) := fun hm => by
      simpa [hst rfl] using following_isMember.mpr hm
    simp [edit, hm]

end Decided

-- To the lists of followed users calls do what they are to do in their last steps.
def commitsFollowing [DecidableEq ι] : Commits (ι := ι) Paused.machine
    (fun p e => (p.threads e.1).control = .followUser →
      ∀ j, (p.threads j).pair = (p.threads e.1).pair → (p.threads j).control.branch = none)
    Call (Uid → Option Value) where
  start          := paused
  view           := column "following"
  operation      := onFollowing
  Sound          := Decided
  Suspends       := Executes
  suspends_start k := ⟨paused_pair k, rfl⟩
  not_finished h := by
    rw [Bool.eq_false_iff, Ne, Paused.finished_iff]
    exact h.control_ne
  sound_step h hu he := h.step he hu
  fails hp := by
    obtain ⟨rfl, rfl⟩ := Paused.step_false hp
    exact ⟨Paused.finished_iff _ |>.mpr rfl, rfl⟩
  continues h hs hp := by
    cases Paused.step_cases hp
    case get hg _ hd =>
      rcases h.of_get hs.lists hg hd with ⟨hr, he⟩ | h'
      case inl => exact .inl ⟨Paused.finished_iff _ |>.mpr hr, (he _).symm⟩
      case inr => exact .inr ⟨h', rfl⟩
    case update hu _ hi =>
      exact hs.of_update h hu hi |>.imp_left (And.imp_left (Paused.finished_iff _ |>.mpr ·))
    case fail ha hn =>
      exact .inl ⟨Paused.finished_iff _ |>.mpr rfl, h.of_missing ha (hn rfl)⟩

theorem following_eval (k : Call) (hs : HasLists "following" s) :
    column "following" (k.code.eval perform s) = k.onFollowing (column "following" s) ∧
      HasLists "following" (k.code.eval perform s) := by
  obtain ⟨es, q, r, hf, he, hok⟩ := exists_run_eval k s
  rw [←he]
  refine Commits.alone (c := commitsFollowing) (.paused (fun _ => k) hs) (r.mono fun h => ⟨?_, h⟩) hf
    hok |>.imp_right Decided.lists
  -- A call that takes its `get` has taken no branch, and there is no other one.
  intro hc j _
  rw [hc]
  rfl

-- A call that has taken a branch is seen to do so in its code.
theorem branch_of_undisturbed {p : Pool Users Paused ι} (h : Undisturbed (p.map Paused.code) e)
    (hc : (p.threads e.1).control = .followUser) (hj : (p.threads j).pair = (p.threads e.1).pair) :
    (p.threads j).control.branch = none := by
  generalize ht : p.threads e.1 = t at hc hj
  generalize hk : p.threads j = k at hj
  obtain ⟨u, v, c⟩ := t
  obtain ⟨u', v', d⟩ := k
  obtain ⟨rfl, rfl⟩ : u' = u ∧ v' = v := Prod.mk.inj hj
  obtain rfl : c = .followUser := hc
  have ⟨hf, hn⟩ := h u' v' (by simp [ht, Paused.code]) j
  rw [Pool.map_threads, hk] at hf hn
  by_contra hb
  obtain ⟨_ | _, hb⟩ := Option.ne_none_iff_exists'.mp hb
  case false => exact hn (unfollowing_code hb)
  case true  => exact hf (following_code hb)

-- As long as no two calls of `followUser` about the same pair of users overlap, the lists of
-- followed users are those that result when the calls without a failure run one after another:
-- Calls that fail, and be it after the first of their updates, have not changed any of them.
theorem following_linearizable [DecidableEq ι] {calls : ι → Call} (hs : HasLists "following" s)
    (r : Run (Guarded Undisturbed (Fires (Pool.step machine))) (pool calls s) es q) :
    ∃ order : List ι,
      order.Nodup ∧ order.Sublist (es.map Prod.fst) ∧
      (∀ i, i ∈ order ↔ machine.finished (q.threads i) ∧ (i, false) ∉ es) ∧
      column "following" q.store =
        column "following" (order.foldl (fun s i => (calls i).code.eval perform s) s) := by
  rw [←pausedPool_map] at r
  obtain ⟨q', r', rfl⟩ := Pool.run_guarded_map_iff Paused.hom |>.mp r
  exact linearizable_of_linearized (c := commitsFollowing) rfl following_eval hs <|
    Commits.Linearized.of_run (Decided.paused calls hs) (fun _ => rfl)
      (r'.mono fun h => ⟨fun hc _ => branch_of_undisturbed h.left hc, h.right⟩)

theorem undisturbed_of_isolated [Fintype ι] {p : Pool Users (Task Uid Unit) ι}
    (h : isolated p e) : Undisturbed p e := by
  intro u v he j
  have hj : ¬concerns u (p.threads j) := by
    simp only [isolated, he, Paused.followUser_eq, Paused.awaitGet, Async.pending] at h
    simpa using of_decide_eq_true h j
  constructor <;> rintro (h | h) <;> simp [concerns, h] at hj

-- A follow that fails halfway and is tried again, next to two others.
def retrying : Fin 4 → Call
  | 0 => .followUser "alice" "bob"
  | 1 => .followUser "carol" "bob"
  | 2 => .followUser "alice" "bob"
  | 3 => .followUser "dave" "erin"

def signedUp : Users :=
  registered ["alice", "bob", "carol", "dave", "erin"]

def retry : List (Fin 4 × Bool) := [
  (0, true), (1, true), (0, true), (3, true), (1, true), (0, false), (2, true), (1, true), (3, true),
  (2, true), (2, true), (3, true)
]

theorem retrying_linearizable :
    ∃ (q : Pool Users (Task Uid Unit) (Fin 4)) (order : List (Fin 4)),
    Run (Fires (Pool.step machine)) (pool retrying signedUp) retry q ∧
    0 ∉ order ∧ column "following" q.store =
      column "following" (order.foldl (fun s i => (retrying i).code.eval perform s) signedUp) := by
  have ⟨q, r, _⟩ := Fires.run_guarded_of_exec (Pool.step machine) (fun p e => isolated p e)
    (pool retrying signedUp) retry (fun _ => true) (by decide)
  obtain ⟨order, _, _, hm, h⟩ := following_linearizable
    (.of_fresh (fresh_registered _) (by simp))
    (r.mono fun h => ⟨undisturbed_of_isolated h.left, h.right⟩)
  exact ⟨q, order, r.unguard, fun h => ((hm 0).mp h).right (by decide), h⟩

end Call
