import FeelingsOverflow.Functionality.FirebaseMethods

open Firestore FirebaseMethods

-- A call of one of the methods that change the social graph. All of them are about an ordered pair
-- of users: the one who (un)follows and the one who is being (un)followed.
inductive Call
  | requestFollow (uid targetUid : Uid)
  | stopFollow (uid targetUid : Uid)
  | followUser (uid followId : Uid)
  deriving DecidableEq, Repr

namespace Call

def pair : Call → Uid × Uid
  | requestFollow u v | stopFollow u v | followUser u v => (u, v)

def code : Call → Task Uid Unit
  | requestFollow u v => FirebaseMethods.requestFollow u v
  | stopFollow u v    => FirebaseMethods.stopFollow u v
  | followUser u v    => FirebaseMethods.followUser u v

def machine : Machine Users (Task Uid Unit) :=
  Async.machine perform

-- The points at which a call can be suspended. The first three await the call's `get`, the others
-- an `update`.
inductive Control
  | requestFollow | stopFollow | followUser
  | createRequest | addRequest | removeRequest
  | removeFollower | removeFollowing
  | addFollower | addFollowing
  | returned
  deriving DecidableEq, Repr

namespace Control

variable (u v : Uid)

-- The update which each of the points awaits.
def update : Control → Option (Uid × String × FieldValue)
  | createRequest   => some (v, "request", .value (.array [u]))
  | addRequest      => some (v, "requests", .arrayUnion [u])
  | removeRequest   => some (v, "requests", .arrayRemove [u])
  | removeFollower  => some (v, "followers", .arrayRemove [u])
  | removeFollowing => some (u, "following", .arrayRemove [v])
  | addFollower     => some (v, "followers", .arrayUnion [u])
  | addFollowing    => some (u, "following", .arrayUnion [v])
  | _               => none

-- The document which each of the points awaits.
def get : Control → Option Uid
  | requestFollow | stopFollow => some v
  | followUser                 => some u
  | _                          => none

-- The operation awaited is one on the document `i`.
def awaits (i : Uid) (c : Control) : Prop :=
  c.get u v = some i ∨ ∃ f value, c.update u v = some (i, f, value)

-- Where a call continues with the data it got.
def resume (data : Document) : Control → Control
  | requestFollow =>
    if isNull (data "requests") then createRequest else
    match data "requests" with
    | some (.array requests) => if u ∉ requests then addRequest else returned
    | _                      => returned
  | stopFollow =>
    if isNull (data "requests") then returned else
    match data "requests" with
    | some (.array requests) => if u ∈ requests then removeRequest else returned
    | _                      => returned
  | followUser =>
    match data "following" with
    | some (.array following) => if v ∈ following then removeFollower else addFollower
    | _                       => returned
  | _ => returned

-- Where a call continues after an update.
def next : Control → Control
  | removeFollower => removeFollowing
  | addFollower    => addFollowing
  | _              => returned

variable {u v}

theorem get_eq_none_of_update {c : Control} (h : c.update u v = some x) : c.get u v = none := by
  cases c <;> simp_all [update, get]

theorem returned_iff (c : Control) (u v : Uid) :
    c = .returned ↔ c.get u v = none ∧ c.update u v = none := by
  cases c <;> simp [update, get]

end Control

-- A suspended call.
@[ext]
structure Paused where
  uid : Uid
  other : Uid
  control : Control
  deriving DecidableEq, Repr

def paused : Call → Paused
  | requestFollow u v => ⟨u, v, .requestFollow⟩
  | stopFollow u v    => ⟨u, v, .stopFollow⟩
  | followUser u v    => ⟨u, v, .followUser⟩

namespace Paused

def moveTo (p : Paused) (c : Control) : Paused :=
  { p with control := c }

@[simp]
theorem moveTo_control (p : Paused) (c : Control) : (p.moveTo c).control = c :=
  rfl

@[simp]
theorem moveTo_uid (p : Paused) (c : Control) : (p.moveTo c).uid = p.uid :=
  rfl

@[simp]
theorem moveTo_other (p : Paused) (c : Control) : (p.moveTo c).other = p.other :=
  rfl

def pair (p : Paused) : Uid × Uid :=
  (p.uid, p.other)

@[simp]
theorem moveTo_pair (p : Paused) (c : Control) : (p.moveTo c).pair = p.pair :=
  rfl

-- The control flow of the calls.
def flow : Async.Flow (Op Uid) Op.Result Paused := fun p =>
  match p.control.get p.uid p.other, p.control.update p.uid p.other with
  | some id, _ =>
    some ⟨.get id, fun r => match r with
      | some (some data) => { p with control := p.control.resume p.uid p.other data }
      | _                => { p with control := .returned }⟩
  | none, some (id, f, v) =>
    some ⟨.update id [(f, v)], fun r => match r with
      | some _ => { p with control := p.control.next }
      | none   => { p with control := .returned }⟩
  | none, none => none

def machine : Machine Users Paused :=
  flow.machine perform

-- The code that is left to run.
def code : Paused → Task Uid Unit
  | ⟨u, v, .requestFollow⟩ => FirebaseMethods.requestFollow u v
  | ⟨u, v, .stopFollow⟩    => FirebaseMethods.stopFollow u v
  | ⟨u, v, .followUser⟩    => FirebaseMethods.followUser u v
  | ⟨u, v, .removeFollower⟩ =>
    (do Firestore.update v [("followers", .arrayRemove [u])]
        Firestore.update u [("following", .arrayRemove [v])]).tryCatch (.done ())
  | ⟨u, v, .addFollower⟩ =>
    (do Firestore.update v [("followers", .arrayUnion [u])]
        Firestore.update u [("following", .arrayUnion [v])]).tryCatch (.done ())
  | ⟨u, v, c⟩ =>
    match c.update u v with
    | some (id, f, value) => (Firestore.update id [(f, value)]).tryCatch (.done ())
    | none                => .done ()

-- An update that is the last thing a call does.
theorem update_tryCatch (id : Uid) (fields : List (String × FieldValue)) :
    (Firestore.update id fields).tryCatch (.done ()) =
      Async.await (Op.update id fields) fun _ => .done () := by
  rw [Firestore.update, Async.perform_tryCatch]
  congr 1
  funext r
  cases r <;> rfl

-- An update that is followed by another one.
theorem updates_tryCatch (id : Uid) (fields : List (String × FieldValue)) (c : Task Uid Unit) :
    (do Firestore.update id fields; c).tryCatch (.done ()) =
      Async.await (Op.update id fields) fun r => r.elim (.done ()) fun _ => c.tryCatch (.done ()) := by
  rw [Firestore.update, Async.perform_bind, Async.await_tryCatch]
  congr 1
  funext r
  cases r <;> rfl

-- A call's `get`, and what happens with the data it got.
theorem get_tryCatch (id : Uid) (c : Document → Task Uid Unit) :
    (do c (← Async.ofOption (← Firestore.get id))).tryCatch (.done ()) =
      Async.await (Op.get id) fun (r : Option (Option Document)) => match r with
        | some (some data) => (c data).tryCatch (.done ())
        | _                => .done () := by
  rw [Firestore.get, Async.perform_bind, Async.await_tryCatch]
  congr 1
  funext r
  obtain _ | _ | _ := r <;> rfl

-- The code of a call that awaits its `get`.
def awaitGet (p : Paused) (id : Uid) : Task Uid Unit :=
  Async.await (Op.get id) fun (r : Option (Option Document)) => match r with
    | some (some data) => code { p with control := p.control.resume p.uid p.other data }
    | _                => .done ()

theorem get_eq_awaitGet {id : Uid} {p : Paused} {c : Document → Task Uid Unit}
    (h : ∀ data, (c data).tryCatch (.done ()) =
      code { p with control := p.control.resume p.uid p.other data }) :
    (do c (← Async.ofOption (← Firestore.get id))).tryCatch (.done ()) = awaitGet p id := by
  rw [get_tryCatch, awaitGet]
  congr 1
  funext r
  obtain _ | _ | data := r
  case some.some => exact h data
  all_goals rfl

theorem requestFollow_eq (u v : Uid) :
    FirebaseMethods.requestFollow u v = awaitGet ⟨u, v, .requestFollow⟩ v := by
  refine get_eq_awaitGet fun data => ?_
  simp only [Control.resume]
  split
  case isTrue => rfl
  case isFalse =>
    rcases data "requests" with _ | _ | _ | _ | _ | _ | requests
    case some.array => simp only [asList, Async.done_bind]; split <;> rfl
    all_goals rfl

theorem stopFollow_eq (u v : Uid) :
    FirebaseMethods.stopFollow u v = awaitGet ⟨u, v, .stopFollow⟩ v := by
  refine get_eq_awaitGet fun data => ?_
  simp only [Control.resume]
  split
  case isTrue => rfl
  case isFalse =>
    rcases data "requests" with _ | _ | _ | _ | _ | _ | requests
    case some.array => simp only [asList, Async.done_bind]; split <;> rfl
    all_goals rfl

theorem followUser_eq (u v : Uid) :
    FirebaseMethods.followUser u v = awaitGet ⟨u, v, .followUser⟩ u := by
  refine get_eq_awaitGet fun data => ?_
  simp only [Control.resume]
  rcases data "following" with _ | _ | _ | _ | _ | _ | following
  case some.array => simp only [asList, Async.done_bind]; split <;> rfl
  all_goals rfl

theorem flow_presents_awaitGet {id : Uid} {p : Paused} (h : p.control.get p.uid p.other = some id) :
    awaitGet p id = match flow p with
      | some n => .await n.1 fun r => code (n.2 r)
      | none   => .done () := by
  simp only [flow, h, awaitGet]
  congr 1
  funext r
  obtain _ | _ | _ := r <;> rfl

theorem flow_presents_code : flow.Presents code := by
  rintro ⟨u, v, c⟩
  cases c
  case requestFollow => exact (requestFollow_eq u v).trans <| flow_presents_awaitGet rfl
  case stopFollow => exact (stopFollow_eq u v).trans <| flow_presents_awaitGet rfl
  case followUser => exact (followUser_eq u v).trans <| flow_presents_awaitGet rfl
  case returned => rfl
  case' removeFollower | addFollower => simp only [code, updates_tryCatch]
  case' createRequest | addRequest | removeRequest | removeFollowing | addFollowing =>
    simp only [code, Control.update, update_tryCatch]
  all_goals
    simp only [flow, Control.get, Control.update]
    congr 1
    funext r
    cases r <;> rfl

theorem finished_iff (p : Paused) : machine.finished p ↔ p.control = .returned := by
  obtain ⟨u, v, c⟩ := p
  cases c <;> simp [machine, Async.Flow.machine, flow, Control.get, Control.update]

-- All that a step of a call can do: it gets a document, it updates one, or its operation fails and
-- the call returns.
inductive Step (p : Paused) (ok : Bool) (s : Users) : Paused → Users → Prop
  | get : p.control.get p.uid p.other = some i → ok = true → s i = some data →
    Step p ok s (p.moveTo (p.control.resume p.uid p.other data)) s
  | update : p.control.update p.uid p.other = some (i, f, v) → ok = true → (s i).isSome →
    Step p ok s (p.moveTo p.control.next) (updated s i [(f, v)])
  | fail : p.control.awaits p.uid p.other i → (ok = true → s i = none) →
    Step p ok s (p.moveTo .returned) s

theorem step_get {p : Paused} (h : p.control.get p.uid p.other = some i) :
    machine.step p ok s = match ok, s i with
      | true, some data => some (p.moveTo (p.control.resume p.uid p.other data), s)
      | _, _            => some (p.moveTo .returned, s) := by
  simp only [machine, Async.Flow.machine, flow, h, Option.map_some, outcome_get]
  cases ok <;> cases s i <;> rfl

theorem step_update {p : Paused} (h : p.control.update p.uid p.other = some (i, f, v)) :
    machine.step p ok s =
      if ok ∧ (s i).isSome then some (p.moveTo p.control.next, updated s i [(f, v)])
      else some (p.moveTo .returned, s) := by
  have hg := p.control.get_eq_none_of_update h
  simp only [machine, Async.Flow.machine, flow, hg, h, Option.map_some, outcome_update]
  by_cases ho : ok = true ∧ (s i).isSome = true <;> simp [ho, moveTo]

theorem step_cases {p p' : Paused} (h : machine.step p ok s = some (p', s')) :
    Step p ok s p' s' := by
  cases hg : p.control.get p.uid p.other
  case some i =>
    rw [step_get hg] at h
    split at h
    case h_1 hd =>
      obtain ⟨rfl, rfl⟩ := Prod.mk.inj (Option.some.inj h)
      exact .get hg rfl hd
    case h_2 hd =>
      obtain ⟨rfl, rfl⟩ := Prod.mk.inj (Option.some.inj h)
      exact .fail (.inl hg) fun ho => Option.eq_none_iff_forall_ne_some.mpr fun d => hd d ho
  case none =>
    cases hu : p.control.update p.uid p.other
    case none =>
      have hn := (p.control.returned_iff _ _).mpr ⟨hg, hu⟩
      simp [machine.step_eq_none.mpr (p.finished_iff.mpr hn)] at h
    case some u =>
      rw [step_update hu] at h
      split at h
      case isTrue ho =>
        obtain ⟨rfl, rfl⟩ := Prod.mk.inj (Option.some.inj h)
        exact .update hu ho.left ho.right
      case isFalse ho =>
        obtain ⟨rfl, rfl⟩ := Prod.mk.inj (Option.some.inj h)
        exact .fail (.inr ⟨_, _, hu⟩) fun h => by simpa [h] using ho

-- The update which a call's code awaits.
theorem pending_code {p : Paused} : p.code.pending = some (.update i fields) ↔
    ∃ f v, p.control.update p.uid p.other = some (i, f, v) ∧ fields = [(f, v)] := by
  rw [flow_presents_code.pending, flow]
  cases hg : p.control.get p.uid p.other
  case some =>
    have hu (x) : p.control.update p.uid p.other ≠ some x := fun hu => by
      simp [p.control.get_eq_none_of_update hu] at hg
    simp [hu]
  case none => cases hu : p.control.update p.uid p.other <;> simp; grind

-- What is proved about suspended calls holds of the code.
def hom : machine.Hom Call.machine :=
  flow_presents_code.hom perform

theorem finished_code (p : Paused) : Call.machine.finished p.code ↔ p.control = .returned := by
  rw [←finished_iff]
  exact Bool.coe_iff_coe.mpr hom.finished_map

end Paused

theorem code_paused (c : Call) : c.paused.code = c.code := by
  cases c <;> rfl

section

variable {s : Users} {u v : Uid} {c : Control}

-- What is left of a call when it runs by itself, from where it is suspended.
theorem eval_get (h : c.get u v = some i) (hd : s i = some data) :
    (Paused.code ⟨u, v, c⟩).eval perform s =
      (Paused.code ⟨u, v, c.resume u v data⟩).eval perform s := by
  rw [Paused.flow_presents_code.eval, Paused.flow, h]
  simp only [outcome_get, hd]
  rfl

theorem eval_update (h : c.update u v = some (i, f, value)) (hd : (s i).isSome) :
    (Paused.code ⟨u, v, c⟩).eval perform s =
      (Paused.code ⟨u, v, c.next⟩).eval perform (updated s i [(f, value)]) := by
  rw [Paused.flow_presents_code.eval, Paused.flow, Control.get_eq_none_of_update h, h]
  simp only [outcome_update, hd, and_self, if_true]

theorem eval_returned : (Paused.code ⟨u, v, .returned⟩).eval perform s = s :=
  rfl

-- What each of the calls does to well-formed documents when it runs by itself.
theorem eval_requestFollow (h : field s v "requests" = some (.array xs)) :
    (requestFollow u v).code.eval perform s =
      if u ∈ xs then s else updated s v [("requests", .arrayUnion [u])] := by
  have hs := isSome_of_field h
  obtain ⟨data, hd, h⟩ := field_eq_some_iff.mp h
  rw [←code_paused, paused, eval_get rfl hd]
  split
  case isTrue hx =>
    have hc : Control.resume u v data .requestFollow = .returned := by
      simp [Control.resume, h, isNull, hx]
    rw [hc, eval_returned]
  case isFalse hx =>
    have hc : Control.resume u v data .requestFollow = .addRequest := by
      simp [Control.resume, h, isNull, hx]
    rw [hc, eval_update rfl hs]
    exact eval_returned

theorem eval_stopFollow (h : field s v "requests" = some (.array xs)) :
    (stopFollow u v).code.eval perform s =
      if u ∈ xs then updated s v [("requests", .arrayRemove [u])] else s := by
  have hs := isSome_of_field h
  obtain ⟨data, hd, h⟩ := field_eq_some_iff.mp h
  rw [←code_paused, paused, eval_get rfl hd]
  split
  case isTrue hx =>
    have hc : Control.resume u v data .stopFollow = .removeRequest := by
      simp [Control.resume, h, isNull, hx]
    rw [hc, eval_update rfl hs]
    exact eval_returned
  case isFalse hx =>
    have hc : Control.resume u v data .stopFollow = .returned := by
      simp [Control.resume, h, isNull, hx]
    rw [hc, eval_returned]

theorem eval_followUser (hv : (s v).isSome) (h : field s u "following" = some (.array xs)) :
    (followUser u v).code.eval perform s =
      if v ∈ xs then
        updated (updated s v [("followers", .arrayRemove [u])]) u [("following", .arrayRemove [v])]
      else
        updated (updated s v [("followers", .arrayUnion [u])]) u [("following", .arrayUnion [v])] := by
  have hs := isSome_of_field h
  obtain ⟨data, hd, h⟩ := field_eq_some_iff.mp h
  rw [←code_paused, paused, eval_get rfl hd]
  split
  case isTrue hx =>
    have hc : Control.resume u v data .followUser = .removeFollower := by
      simp [Control.resume, h, hx]
    rw [hc, eval_update rfl hv, eval_update rfl (by simpa using hs)]
    exact eval_returned
  case isFalse hx =>
    have hc : Control.resume u v data .followUser = .addFollower := by
      simp [Control.resume, h, hx]
    rw [hc, eval_update rfl hv, eval_update rfl (by simpa using hs)]
    exact eval_returned

end

variable {ι : Type}

-- Any number of calls, none of which has taken a step.
def pool (calls : ι → Call) (s : Users) : Machine.Pool Users (Task Uid Unit) ι where
  store := s
  threads i := (calls i).code

def pausedPool (calls : ι → Call) (s : Users) : Machine.Pool Users Paused ι where
  store := s
  threads i := (calls i).paused

theorem pausedPool_map (calls : ι → Call) (s : Users) :
    (pausedPool calls s).map Paused.hom.map = pool calls s := by
  simp only [pausedPool, pool, Machine.Pool.map, Machine.Pool.mk.injEq, true_and]
  funext i
  exact code_paused (calls i)

@[simp]
theorem paused_pair (c : Call) : c.paused.pair = c.pair := by
  cases c <;> rfl

end Call
