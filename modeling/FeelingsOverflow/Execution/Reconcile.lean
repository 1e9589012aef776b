import FeelingsOverflow.Execution.Run

open Execution

-- A scrolling list whose children have no keys. A child in view has a state, which is created when
-- its position comes into view, and stays there as long as the child is replaced by one of its type.
namespace Reconcile

structure Component (ω κ σ ε : Type) where
  type : ω → κ
  createState : ω → σ
  step : σ → ε → Option σ

structure Element (ω σ : Type) where
  widget : ω
  state : σ

structure Children (ω σ : Type) where
  widgets : List ω
  elements : Nat → Option (Element ω σ)

inductive Event (ω ε : Type)
  | rebuild (widgets : List ω)
  | scrollIn (i : Nat)
  | scrollOut (i : Nat)
  | state (i : Nat) (e : ε)

variable {ω κ σ ε : Type} [DecidableEq κ] (C : Component ω κ σ ε)

def Component.createElement (w : ω) : Element ω σ where
  widget := w
  state  := C.createState w

def Component.canUpdate (old new : ω) : Bool :=
  C.type old = C.type new

def Component.updateChild (e : Element ω σ) (new : ω) : Element ω σ :=
  if C.canUpdate e.widget new then { e with widget := new } else C.createElement new

def Children.empty : Children ω σ where
  widgets    := []
  elements _ := none

def step (s : Children ω σ) : Event ω ε → Option (Children ω σ)
  | .rebuild widgets => some {
      widgets    := widgets
      elements i := do
        let e ← s.elements i
        let new ← widgets[i]?
        return C.updateChild e new
    }
  | .scrollIn i => do
    let w ← s.widgets[i]?
    if (s.elements i).isNone then
      some { s with elements := Function.update s.elements i (some (C.createElement w)) }
    else none
  | .scrollOut i => some { s with elements := Function.update s.elements i none }
  | .state i e => do
    let element ← s.elements i
    let state ← C.step element.state e
    return { s with elements := Function.update s.elements i (some { element with state }) }

-- Something holds of all children in view.
def Everywhere (P : ω → σ → Prop) (s : Children ω σ) : Prop :=
  ∀ i e, s.elements i = some e → P e.widget e.state

-- What a step has to meet so that all children in view are still as they are to be: It holds of the
-- states that stay for their new children, and the steps of states keep it.
def Keeps (P : ω → σ → Prop) (s : Children ω σ) : Event ω ε → Prop
  | .rebuild widgets => ∀ i e new, s.elements i = some e → widgets[i]? = some new →
    C.canUpdate e.widget new → P new e.state
  | .state i e => ∀ element state, s.elements i = some element → C.step element.state e = some state →
    P element.widget state
  | _ => True

variable {C} {P : ω → σ → Prop} {s s' : Children ω σ}

omit [DecidableEq κ] in
theorem everywhere_empty : Everywhere P (.empty : Children ω σ) :=
  nofun

theorem everywhere_update {e : Option (Element ω σ)} (h : Everywhere P s) :
    Everywhere P { s with elements := Function.update s.elements i e } ↔
      ∀ element, e = some element → P element.widget element.state := by
  constructor
  · intro hu element he
    exact hu i element (by simp [he])
  · intro he j element hj
    by_cases hi : j = i
    case pos => exact he element (by simpa [hi] using hj)
    case neg => exact h j element (by simpa [hi] using hj)

theorem everywhere_step_iff (hc : ∀ w, P w (C.createState w)) (h : Everywhere P s)
    (hs : step C s e = some s') : Everywhere P s' ↔ Keeps C P s e := by
  cases e
  case rebuild widgets =>
    obtain rfl := Option.some.inj hs
    constructor
    · intro hp i e new he hn hu
      have hp := hp i (C.updateChild e new) (by simp [he, hn])
      rwa [Component.updateChild, if_pos hu] at hp
    · intro hk i e he
      simp only [Option.bind_eq_bind, Option.bind_eq_some_iff, Option.pure_def,
        Option.some.injEq] at he
      obtain ⟨e, he, new, hn, rfl⟩ := he
      simp only [Component.updateChild]
      split
      case isTrue hu => exact hk i e new he hn hu
      case isFalse   => exact hc new
  case scrollIn i =>
    simp only [step, Option.bind_eq_bind, Option.bind_eq_some_iff, Option.ite_none_right_eq_some,
      Option.some.injEq] at hs
    obtain ⟨w, _, _, rfl⟩ := hs
    rw [everywhere_update h]
    simp [Keeps, Component.createElement, hc]
  case scrollOut i =>
    obtain rfl := Option.some.inj hs
    rw [everywhere_update h]
    simp [Keeps]
  case state i e =>
    simp only [step, Option.bind_eq_bind, Option.bind_eq_some_iff, Option.pure_def,
      Option.some.injEq] at hs
    obtain ⟨element, he, state, ht, rfl⟩ := hs
    rw [everywhere_update h]
    constructor
    · rintro hp element' state' he' ht'
      obtain rfl := Option.some.inj (he.symm.trans he')
      exact Option.some.inj (ht.symm.trans ht') ▸ hp _ rfl
    · intro hk _ hn
      obtain rfl := Option.some.inj hn
      exact hk element state he ht

-- What holds of new states, and is kept by their steps, holds of all states.
theorem everywhere_state {J : σ → Prop} (hc : ∀ w, J (C.createState w))
    (ht : ∀ {st e st'}, J st → C.step st e = some st' → J st') (h : Everywhere (fun _ => J) s)
    (hs : step C s e = some s') : Everywhere (fun _ => J) s' := by
  refine everywhere_step_iff hc h hs |>.mpr ?_
  cases e
  case rebuild => exact fun i e _ he _ _ => h i e he
  case state   => exact fun _ _ he hst => ht (h _ _ he) hst
  all_goals trivial

end Reconcile
