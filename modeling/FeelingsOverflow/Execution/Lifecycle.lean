import FeelingsOverflow.Execution.Async

-- Code that fills in the state of a widget, and may outlive it.
namespace Lifecycle

inductive Op (read σ : Type)
  | read (r : read)
  | assign (f : σ → σ)
  | setState (f : σ → σ)
  | context

abbrev Op.Result {read σ : Type} (res : read → Type) : Op read σ → Type
  | .read r => res r
  | _       => Unit

abbrev Loader {read : Type} (res : read → Type) (σ α : Type) :=
  Async (Op read σ) (Op.Result res) α

variable {read σ α : Type} {res : read → Type}

def fetch (r : read) : Loader res σ (res r) :=
  Async.perform (Op.read r)

def assign (f : σ → σ) : Loader res σ Unit :=
  Async.perform (Op.assign f)

def setState (f : σ → σ) : Loader res σ Unit :=
  Async.perform (Op.setState f)

def context : Loader res σ Unit :=
  Async.perform Op.context

-- A widget's state, which is mounted until it is disposed of. It is dirty when it has to be rebuilt,
-- and touched when `setState` was called after it had been disposed of.
structure State (σ : Type) where
  fields : σ
  mounted : Bool
  dirty : Bool
  touched : Bool

namespace State

def initial (fields : σ) : State σ where
  fields  := fields
  mounted := true
  dirty   := true
  touched := false

def assign (f : σ → σ) (s : State σ) : State σ :=
  { s with fields := f s.fields }

def setState (f : σ → σ) (s : State σ) : State σ :=
  { s with fields := f s.fields, dirty := true }

def dispose (s : State σ) : State σ :=
  { s with mounted := false }

def rebuilt (s : State σ) : State σ :=
  { s with dirty := false }

end State

-- Executes a loader up to its next read. Only reads are awaited. On a state that has been disposed of
-- `setState` and `context` throw.
def advance : Loader res σ α → State σ → Loader res σ α × State σ
  | .await (.assign f) k, s => advance (k (some ())) (s.assign f)
  | .await (.setState f) k, s =>
    if s.mounted then advance (k (some ())) (s.setState f)
    else advance (k none) { s with touched := true }
  | .await .context k, s => if s.mounted then advance (k (some ())) s else advance (k none) s
  | c, s => (c, s)

-- What a loader continues with when the read that it awaits completes with an answer, or fails.
def answered (answer : (r : read) → Option (res r)) : Loader res σ α → Option (Loader res σ α)
  | .await (.read r) k => some (k (answer r))
  | _                  => none

-- Whether a loader calls `setState` before its next read, when its widget has been disposed of.
def touches : Loader res σ α → Bool
  | .await (.assign _) k   => touches (k (some ()))
  | .await (.setState _) _ => true
  | .await .context k      => touches (k none)
  | _                      => false

-- Executes a loader to its end, where a read is answered alike whenever it is made.
def finish (answer : (r : read) → Option (res r)) : Loader res σ α → State σ → State σ
  | .await (.read r) k, s => finish answer (k (answer r)) s
  | .await (.assign f) k, s => finish answer (k (some ())) (s.assign f)
  | .await (.setState f) k, s =>
    if s.mounted then finish answer (k (some ())) (s.setState f)
    else finish answer (k none) { s with touched := true }
  | .await .context k, s =>
    if s.mounted then finish answer (k (some ())) s else finish answer (k none) s
  | _, s => s

-- A widget together with the loaders that it has started.
structure Widget (res : read → Type) (σ : Type) where
  state : State σ
  loaders : List (Loader res σ Unit)

namespace Widget

def launch (w : Widget res σ) (c : Loader res σ Unit) : Widget res σ where
  state   := (advance c w.state).2
  loaders := w.loaders ++ [(advance c w.state).1]

-- A new widget, which starts a loader in its `initState`.
def create (fields : σ) (c : Loader res σ Unit) : Widget res σ :=
  launch ⟨.initial fields, []⟩ c

-- What the widget's own handlers do.
def assign (f : σ → σ) (w : Widget res σ) : Widget res σ :=
  { w with state := w.state.assign f }

def setState (f : σ → σ) (w : Widget res σ) : Widget res σ :=
  { w with state := w.state.setState f }

def dispose (w : Widget res σ) : Widget res σ :=
  { w with state := w.state.dispose }

def rebuilt (w : Widget res σ) : Widget res σ :=
  { w with state := w.state.rebuilt }

-- The read of one of the loaders is answered.
def resume (w : Widget res σ) (i : Nat) (answer : (r : read) → Option (res r)) :
    Option (Widget res σ) := do
  let c ← w.loaders[i]?
  let c ← answered answer c
  return { state := (advance c w.state).2, loaders := w.loaders.set i (advance c w.state).1 }

-- Nothing but answers for its first loader happens to the widget.
def Resumes (answer : (r : read) → Option (res r)) (w : Widget res σ) (_ : Unit)
    (w' : Widget res σ) : Prop :=
  w.resume 0 answer = some w'

def Returned (w : Widget res σ) : Prop :=
  ∀ c ∈ w.loaders, c.pending = none

end Widget

section

variable {β : Type} {c c' : Loader res σ α} {s : State σ} {w w' : Widget res σ}
variable {answer : (r : read) → Option (res r)}

theorem answered_of_pending (h : c.pending = none) : answered answer c = none := by
  cases c
  case await => simp [Async.pending] at h
  all_goals rfl

theorem answered_cases (h : answered answer c = some c') :
    ∃ r k, c = .await (.read r) k ∧ c' = k (answer r) := by
  cases c
  case await o k =>
    cases o
    case read r => exact ⟨r, k, rfl, Option.some.inj h |>.symm⟩
    all_goals cases h
  all_goals cases h

theorem answered_fetch (r : read) (k : res r → Loader res σ α) :
    answered answer (fetch r >>= k) = some ((answer r).elim .throw k) := by
  rw [fetch, Async.perform_bind]
  rfl

-- What follows the code that awaits a read is not affected by the answer.
theorem answered_bind (h : answered answer c = some c') (f : α → Loader res σ β) :
    answered answer (c >>= f) = some (c' >>= f) := by
  obtain ⟨r, k, rfl, rfl⟩ := answered_cases h
  rfl

theorem answered_tryCatch (h : answered answer c = some c') (d : Loader res σ α) :
    answered answer (c.tryCatch d) = some (c'.tryCatch d) := by
  obtain ⟨r, k, rfl, rfl⟩ := answered_cases h
  rfl

theorem finish_answered (h : answered answer c = some c') :
    finish answer c s = finish answer c' s := by
  obtain ⟨r, k, rfl, rfl⟩ := answered_cases h
  rfl

theorem finish_of_pending (h : c.pending = none) : finish answer c s = s := by
  cases c
  case await => simp [Async.pending] at h
  all_goals rfl

theorem finish_advance : finish answer (advance c s).1 (advance c s).2 = finish answer c s := by
  induction c generalizing s
  case await o k hi =>
    cases o
    case read   => rfl
    case assign => exact hi ..
    case' setState | context =>
      rw [advance, finish]
      split <;> exact hi _
  all_goals rfl

theorem Widget.resume_eq_some_iff : w.resume i answer = some w' ↔ ∃ c c',
    w.loaders[i]? = some c ∧ answered answer c = some c' ∧
    w' = ⟨(advance c' w.state).2, w.loaders.set i (advance c' w.state).1⟩ := by
  simp only [resume, Option.bind_eq_bind, Option.bind_eq_some_iff, Option.pure_def,
    Option.some.injEq]
  constructor
  · rintro ⟨c, hi, c', hc, rfl⟩
    exact ⟨c, c', hi, hc, rfl⟩
  · rintro ⟨c, c', hi, hc, rfl⟩
    exact ⟨c, hi, c', hc, rfl⟩

@[simp]
theorem advance_mounted : (advance c s).2.mounted = s.mounted := by
  induction c generalizing s
  case await o k hi =>
    cases o
    case read   => rfl
    case assign => exact hi ..
    case' setState | context =>
      rw [advance]
      split <;> exact hi _
  all_goals rfl

theorem advance_touched_of_mounted (h : s.mounted) : (advance c s).2.touched = s.touched := by
  induction c generalizing s
  case await o k hi =>
    cases o
    case read   => rfl
    case assign => exact hi _ h
    case' setState | context =>
      rw [advance, if_pos h]
      exact hi _ h
  all_goals rfl

theorem advance_touched_of_disposed (h : s.mounted = false) :
    (advance c s).2.touched = (s.touched || touches c) := by
  induction c generalizing s
  case await o k hi =>
    cases o
    case read   => simp [advance, touches]
    case assign => exact hi _ h
    case setState =>
      have ht := hi none (s := { s with touched := true }) h
      rw [advance, if_neg (by simp [h]), ht, touches, Bool.or_true, Bool.true_or]
    case context =>
      rw [advance, if_neg (by simp [h]), touches]
      exact hi _ h
  all_goals simp [advance, touches]

end

section

open Execution

variable {c : Loader res σ Unit} {s : State σ} {w : Widget res σ}
variable {answer : (r : read) → Option (res r)}

-- Resuming a loader over and over executes it to its end.
theorem Widget.finish_of_run (r : Run (Resumes answer) (create fields c) es w) (h : w.Returned) :
    w.state = finish answer c (.initial fields) := by
  have ⟨d, hl, hd⟩ : ∃ d, w.loaders = [d] ∧
      finish answer d w.state = finish answer c (.initial fields) := by
    refine r.invariant (I := fun w => ∃ d, w.loaders = [d] ∧
      finish answer d w.state = finish answer c (.initial fields)) ?_ ⟨_, rfl, finish_advance⟩
    rintro w _ w' ⟨d, hl, hd⟩ hw
    obtain ⟨d', c', hi, hc, rfl⟩ := Widget.resume_eq_some_iff.mp hw
    obtain rfl : d = d' := by simpa [hl] using hi
    exact ⟨_, by simp [hl], finish_advance.trans <| (finish_answered hc).symm.trans hd⟩
  exact (finish_of_pending <| h d <| hl ▸ List.mem_singleton_self d).symm.trans hd

-- There is such an end.
theorem Widget.exists_run (fields : σ) (c : Loader res σ Unit)
    (answer : (r : read) → Option (res r)) :
    ∃ es w, Run (Resumes answer) (create fields c) es w ∧ w.Returned := by
  suffices h : ∀ s : State σ, ∃ es w,
    Run (Resumes answer) ⟨(advance c s).2, [(advance c s).1]⟩ es w ∧ w.Returned from h _
  intro s
  induction c generalizing s
  case await o k hi =>
    cases o
    case read r =>
      have ⟨es, w, h, hw⟩ := hi (answer r) s
      exact ⟨() :: es, w, .step rfl h, hw⟩
    case assign => exact hi ..
    case' setState | context =>
      rw [advance]
      split <;> exact hi _ _
  all_goals exact ⟨[], _, .refl, List.forall_mem_singleton.mpr rfl⟩

end

end Lifecycle
