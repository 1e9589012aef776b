import FeelingsOverflow.Execution.Machine

-- Asynchronous code over the operations `op`. It runs by itself up to its next `await`, where it is
-- handed the result of an operation, or `none` when the operation fails.
inductive Async (op : Type) (res : op → Type) (α : Type)
  | done (a : α)
  | throw
  | await (o : op) (k : Option (res o) → Async op res α)

namespace Async

variable {op : Type} {res : op → Type} {α β γ σ κ : Type}

def bind : Async op res α → (α → Async op res β) → Async op res β
  | done a, f    => f a
  | throw, _     => throw
  | await o k, f => await o fun r => (k r).bind f

-- `try c catch (e) h`.
def tryCatch : Async op res α → Async op res α → Async op res α
  | done a, _    => done a
  | throw, h     => h
  | await o k, h => await o fun r => (k r).tryCatch h

instance : Monad (Async op res) where
  pure := done
  bind := bind

-- Awaits an operation, whose failure is thrown.
def perform (o : op) : Async op res (res o) :=
  await o fun
    | some r => done r
    | none   => throw

def ofOption : Option α → Async op res α
  | some a => done a
  | none   => throw

@[simp]
theorem done_bind (a : α) (f : α → Async op res β) : done a >>= f = f a :=
  rfl

@[simp]
theorem pure_eq_done (a : α) : (pure a : Async op res α) = done a :=
  rfl

@[simp]
theorem throw_bind (f : α → Async op res β) : (throw : Async op res α) >>= f = throw :=
  rfl

@[simp]
theorem await_bind (o : op) (k : Option (res o) → Async op res α) (f : α → Async op res β) :
    await o k >>= f = await o fun r => k r >>= f :=
  rfl

theorem bind_assoc (c : Async op res α) (f : α → Async op res β) (g : β → Async op res γ) :
    c >>= f >>= g = c >>= fun a => f a >>= g := by
  induction c
  case await o k hi =>
    simp only [await_bind]
    congr 1
    funext r
    exact hi r
  all_goals rfl

@[simp]
theorem perform_bind (o : op) (f : res o → Async op res β) :
    perform o >>= f = await o fun r => r.elim throw f := by
  show await o _ = await o _
  congr 1
  funext r
  cases r <;> rfl

@[simp]
theorem done_tryCatch (a : α) (h : Async op res α) : (done a).tryCatch h = done a :=
  rfl

@[simp]
theorem throw_tryCatch (h : Async op res α) : throw.tryCatch h = h :=
  rfl

@[simp]
theorem await_tryCatch (o : op) (k : Option (res o) → Async op res α) (h : Async op res α) :
    (await o k).tryCatch h = await o fun r => (k r).tryCatch h :=
  rfl

theorem perform_tryCatch (o : op) (h : Async op res (res o)) :
    (perform o).tryCatch h = await o fun r => r.elim h done := by
  simp only [perform, await_tryCatch]
  congr 1
  funext r
  cases r <;> rfl

-- The operation that suspended code is waiting for.
def pending : Async op res α → Option op
  | await o _ => some o
  | _         => none

-- What carrying out `o` hands back to the code, and what it does to the shared state. An operation
-- that fails, by itself or because of the network, leaves the state as it is.
def outcome (exec : (o : op) → σ → Option (res o × σ)) (o : op) (ok : Bool) (s : σ) :
    Option (res o) × σ :=
  match ok, exec o s with
  | true, some (r, s') => (some r, s')
  | _, _               => (none, s)

-- Suspended code is scheduled from one `await` to the next.
def machine (exec : (o : op) → σ → Option (res o × σ)) : Machine σ (Async op res α) where
  step
    | await o k, ok, s => some (k (outcome exec o ok s).1, (outcome exec o ok s).2)
    | _, _, _          => none
  finished
    | await .. => false
    | _        => true
  step_eq_none := by
    intro t ok s
    cases t <;> simp

-- Runs code by itself, with no failure but those of the operations themselves.
def eval (exec : (o : op) → σ → Option (res o × σ)) : Async op res α → σ → σ
  | await o k, s => (k (outcome exec o true s).1).eval exec (outcome exec o true s).2
  | _, s         => s

-- Runs code by itself, where `ok` chooses which of the operations the network lets through. Yields
-- which of them succeeded, too.
def attempt (exec : (o : op) → σ → Option (res o × σ)) :
    Async op res α → (Nat → Bool) → σ → List Bool × σ
  | await o k, ok, s =>
    let r := outcome exec o (ok 0) s
    let rest := (k r.1).attempt exec (fun n => ok (n + 1)) r.2
    (r.1.isSome :: rest.1, rest.2)
  | _, _, s => ([], s)

open Execution in
theorem run_attempt (exec : (o : op) → σ → Option (res o × σ)) (c : Async op res α)
    (ok : Nat → Bool) (s : σ) : ∃ es c', (machine exec).finished c' ∧
      Run (fun p ok p' => (machine exec).step p.1 ok p.2 = some p') (c, s) es
        (c', (c.attempt exec ok s).2) := by
  induction c generalizing ok s
  case await o k hi =>
    have ⟨es, c', hf, r⟩ := hi (outcome exec o (ok 0) s).1 (fun n => ok (n + 1))
      (outcome exec o (ok 0) s).2
    exact ⟨ok 0 :: es, c', hf, .step rfl r⟩
  all_goals exact ⟨[], _, rfl, .refl⟩

-- A control-flow graph: in each node either nothing is left to do, or an operation is awaited whose
-- outcome leads to the next node.
abbrev Flow (op : Type) (res : op → Type) (κ : Type) :=
  κ → Option ((o : op) × (Option (res o) → κ))

namespace Flow

def machine (exec : (o : op) → σ → Option (res o × σ)) (f : Flow op res κ) : Machine σ κ where
  step c ok s := (f c).map fun n => (n.2 (outcome exec n.1 ok s).1, (outcome exec n.1 ok s).2)
  finished c := (f c).isNone
  step_eq_none := by simp

-- The code at each node of the graph, unfolded up to its first `await`.
def Presents (f : Flow op res κ) (code : κ → Async op res Unit) : Prop :=
  ∀ c, code c = match f c with
    | some n => await n.1 fun r => code (n.2 r)
    | none   => done ()

variable {f : Flow op res κ} {code : κ → Async op res Unit}

-- Code presented by a graph is scheduled as the graph's nodes are.
def Presents.hom (h : f.Presents code) (exec : (o : op) → σ → Option (res o × σ)) :
    (f.machine exec).Hom (Async.machine (α := Unit) exec) where
  map := code
  step_map := by
    intro c ok s
    rw [h c]
    cases hc : f c <;> simp [Async.machine, machine, hc]
  finished_map := by
    intro c
    rw [h c]
    cases hc : f c <;> simp [Async.machine, machine, hc]

theorem Presents.pending (h : f.Presents code) (c : κ) : (code c).pending = (f c).map (·.1) := by
  rw [h c]
  cases f c <;> rfl

theorem Presents.eval (h : f.Presents code) (exec : (o : op) → σ → Option (res o × σ)) (c : κ)
    (s : σ) : (code c).eval exec s = match f c with
      | some n => (code (n.2 (outcome exec n.1 true s).1)).eval exec (outcome exec n.1 true s).2
      | none   => s := by
  rw [h c]
  cases f c <;> rfl

end Flow

open Execution in
-- Scheduled by itself and without failures of the network, `c` finishes and takes `s` to `s'`.
def Completes (exec : (o : op) → σ → Option (res o × σ)) (c : Async op res α) (s s' : σ) : Prop :=
  ∃ es c', (machine exec).finished c' ∧
    Run (fun p (_ : Unit) p' => (machine exec).step p.1 true p.2 = some p') (c, s) es (c', s')

open Execution in
theorem completes_iff_eval {exec : (o : op) → σ → Option (res o × σ)} {c : Async op res α} :
    c.Completes exec s s' ↔ c.eval exec s = s' := by
  induction c generalizing s
  case await o k hi =>
    rw [eval, ←hi]
    constructor
    · rintro ⟨_, c', hf, r⟩
      cases r
      case refl => simp [machine] at hf
      case step p es hp r =>
        cases hp
        exact ⟨es, c', hf, r⟩
    · rintro ⟨es, c', hf, r⟩
      exact ⟨() :: es, c', hf, .step rfl r⟩
  all_goals
    constructor
    · rintro ⟨_, _, _, r⟩
      cases r
      case refl      => rfl
      case step hp _ => simp [machine] at hp
    · rintro rfl
      exact ⟨[], _, rfl, .refl⟩

end Async
