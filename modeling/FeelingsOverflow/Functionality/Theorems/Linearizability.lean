import FeelingsOverflow.Functionality.PairView
import FeelingsOverflow.Functionality.Columns

open Execution Firestore FirebaseMethods Machine

namespace Call

-- What each of the calls is to do to the lists of requests.
def onRequests : Call → (Uid → Option Value) → Uid → Option Value
  | requestFollow u v, r => Column.update r v (.arrayUnion [u])
  | stopFollow u v, r    => Column.update r v (.arrayRemove [u])
  | followUser _ _, r    => r

-- The points at which calls are suspended when each document holds a list of requests.
inductive Suspends : Call → Paused → Prop
  | requestFollow   : Suspends (.requestFollow u v) ⟨u, v, .requestFollow⟩
  | addRequest      : Suspends (.requestFollow u v) ⟨u, v, .addRequest⟩
  | stopFollow      : Suspends (.stopFollow u v) ⟨u, v, .stopFollow⟩
  | removeRequest   : Suspends (.stopFollow u v) ⟨u, v, .removeRequest⟩
  | followUser      : Suspends (.followUser u v) ⟨u, v, .followUser⟩
  | removeFollower  : Suspends (.followUser u v) ⟨u, v, .removeFollower⟩
  | removeFollowing : Suspends (.followUser u v) ⟨u, v, .removeFollowing⟩
  | addFollower     : Suspends (.followUser u v) ⟨u, v, .addFollower⟩
  | addFollowing    : Suspends (.followUser u v) ⟨u, v, .addFollowing⟩

namespace Suspends

variable {s : Users} {k : Call} {p : Paused}

theorem of_paused (k : Call) : Suspends k k.paused := by
  cases k <;> constructor

theorem control_ne (h : Suspends k p) : p.control ≠ .returned := by
  cases h <;> simp

-- What a call is to do has been done already when it returns with the data that it got.
theorem of_get (h : Suspends k p) (hs : HasLists "requests" s)
    (hg : p.control.get p.uid p.other = some i) (hd : s i = some data) :
    (p.control.resume p.uid p.other data = .returned ∧
      column "requests" s = k.onRequests (column "requests" s)) ∨
    Suspends k (p.moveTo (p.control.resume p.uid p.other data)) := by
  have ⟨xs, hx⟩ := hs i (by simp [hd])
  have hx' : data "requests" = some (.array xs) := by simpa [column, field, hd] using hx
  cases h <;> simp only [Control.get, Option.some.injEq, reduceCtorEq] at hg <;> subst hg
  case requestFollow u v =>
    by_cases hu : u ∈ xs
    case pos =>
      have he : Column.update (column "requests" s) v (.arrayUnion [u]) = column "requests" s :=
        Column.update_eq_self <| by simp [hx, FieldValue.apply, arrayUnion_of_mem hu]
      exact .inl ⟨by simp [Control.resume, hx', isNull, hu], he.symm⟩
    case neg =>
      have hc : Control.resume u v data .requestFollow = .addRequest := by
        simp [Control.resume, hx', isNull, hu]
      exact .inr (hc ▸ .addRequest)
  case stopFollow u v =>
    by_cases hu : u ∈ xs
    case pos =>
      have hc : Control.resume u v data .stopFollow = .removeRequest := by
        simp [Control.resume, hx', isNull, hu]
      exact .inr (hc ▸ .removeRequest)
    case neg =>
      have he : Column.update (column "requests" s) v (.arrayRemove [u]) = column "requests" s :=
        Column.update_eq_self <| by simp [hx, FieldValue.apply, arrayRemove_of_not_mem hu]
      exact .inl ⟨by simp [Control.resume, hx', isNull, hu], he.symm⟩
  case followUser =>
    simp only [Control.resume]
    split
    case h_1 =>
      split
      case isTrue  => exact .inr .removeFollower
      case isFalse => exact .inr .addFollower
    case h_2 => exact .inl ⟨rfl, rfl⟩

theorem of_update (h : Suspends k p) (hs : HasLists "requests" s)
    (hu : p.control.update p.uid p.other = some (i, f, value)) (hi : (s i).isSome) :
    (p.control.next = .returned ∧
      column "requests" (updated s i [(f, value)]) = k.onRequests (column "requests" s)) ∨
    (Suspends k (p.moveTo p.control.next) ∧
      column "requests" (updated s i [(f, value)]) = column "requests" s) := by
  cases h <;> simp only [Control.update, Option.some.injEq, Prod.mk.injEq, reduceCtorEq] at hu
  all_goals obtain ⟨rfl, rfl, rfl⟩ := hu
  case' addRequest | removeRequest => exact .inl ⟨rfl, Column.updated_eq hs hi _⟩
  case removeFollower => exact .inr ⟨.removeFollowing, Column.updated_of_ne (by decide) ..⟩
  case addFollower    => exact .inr ⟨.addFollowing, Column.updated_of_ne (by decide) ..⟩
  all_goals exact .inl ⟨rfl, Column.updated_of_ne (by decide) ..⟩

-- A call about a user without a document has nothing to do.
theorem of_missing (h : Suspends k p) (ha : p.control.awaits p.uid p.other i) (hn : s i = none) :
    column "requests" s = k.onRequests (column "requests" s) := by
  cases h
  case' requestFollow | addRequest | stopFollow | removeRequest =>
    obtain rfl : i = _ := by simpa [Control.awaits, Control.get, Control.update, eq_comm] using ha
    exact Eq.symm <| Column.update_eq_self <| by simp [column_eq_none hn]
  all_goals rfl

end Suspends

variable {ι : Type} {s : Users}

-- To the lists of requests calls do what they are to do in their last steps.
def commitsRequests [DecidableEq ι] :
    Commits (ι := ι) Paused.machine (fun _ _ => True) Call (Uid → Option Value) where
  start          := paused
  view           := column "requests"
  operation      := onRequests
  Sound p        := HasLists "requests" p.store
  Suspends       := Suspends
  suspends_start := Suspends.of_paused
  not_finished h := by
    rw [Bool.eq_false_iff, Ne, Paused.finished_iff]
    exact h.control_ne
  sound_step h _ he := by
    obtain ⟨_, _, hp, rfl⟩ := Pool.step_eq_some.mp he
    exact Paused.hasLists_step h (by decide) hp
  fails hp := by
    obtain ⟨rfl, rfl⟩ := Paused.step_false hp
    exact ⟨Paused.finished_iff _ |>.mpr rfl, rfl⟩
  continues h hs hp := by
    cases Paused.step_cases hp
    case get hg _ hd =>
      rcases h.of_get hs hg hd with ⟨hr, he⟩ | h'
      case inl => exact .inl ⟨Paused.finished_iff _ |>.mpr hr, he⟩
      case inr => exact .inr ⟨h', rfl⟩
    case update hu _ hi =>
      exact h.of_update hs hu hi |>.imp_left (And.imp_left (Paused.finished_iff _ |>.mpr ·))
    case fail ha hn =>
      exact .inl ⟨Paused.finished_iff _ |>.mpr rfl, h.of_missing ha (hn rfl)⟩

theorem requests_eval (k : Call) (hs : HasLists "requests" s) :
    column "requests" (k.code.eval perform s) = k.onRequests (column "requests" s) ∧
      HasLists "requests" (k.code.eval perform s) := by
  obtain ⟨es, q, r, hf, he, hok⟩ := exists_run_eval k s
  rw [←he]
  exact Commits.alone (c := commitsRequests) hs (r.guard fun _ _ => trivial) hf hok

-- However calls are interleaved and whichever of their operations fail, the lists of requests are
-- those that result when the calls without a failure run one after another, in an order in which
-- each stands at one of its own steps.
theorem requests_linearizable [DecidableEq ι] {calls : ι → Call} (hs : HasLists "requests" s)
    (r : Run (Fires (Pool.step machine)) (pool calls s) es q) : ∃ order : List ι,
      order.Nodup ∧ order.Sublist (es.map Prod.fst) ∧
      (∀ i, i ∈ order ↔ machine.finished (q.threads i) ∧ (i, false) ∉ es) ∧
      column "requests" q.store =
        column "requests" (order.foldl (fun s i => (calls i).code.eval perform s) s) := by
  rw [←pausedPool_map] at r
  obtain ⟨q', r', rfl⟩ := Pool.run_map_iff Paused.hom |>.mp r
  exact linearizable_of_linearized (c := commitsRequests) rfl requests_eval hs <|
    Commits.Linearized.of_run hs (fun _ => rfl) (r'.guard fun _ _ => trivial)

-- A request that is withdrawn while it is on its way, next to one that fails.
def requesting : Fin 3 → Call
  | 0 => .requestFollow "alice" "bob"
  | 1 => .stopFollow "alice" "bob"
  | 2 => .requestFollow "carol" "bob"

theorem requesting_linearizable :
    ∃ (q : Pool Users (Task Uid Unit) (Fin 3)) (order : List (Fin 3)),
    Run (Fires (Pool.step machine)) (pool requesting (registered ["alice", "bob", "carol"]))
      [(0, true), (2, true), (1, true), (0, true), (2, false)] q ∧
    column "requests" q.store = column "requests"
      (order.foldl (fun s i => (requesting i).code.eval perform s)
        (registered ["alice", "bob", "carol"])) := by
  have ⟨q, r, _⟩ := Fires.run_of_exec (Pool.step machine)
    (pool requesting (registered ["alice", "bob", "carol"]))
    [(0, true), (2, true), (1, true), (0, true), (2, false)] (fun _ => true) (by decide)
  obtain ⟨order, _, _, _, h⟩ :=
    requests_linearizable (.of_fresh (fresh_registered _) (by simp)) r
  exact ⟨q, order, r, h⟩

end Call
