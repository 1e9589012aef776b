import FeelingsOverflow.Execution.Async
import FeelingsOverflow.Execution.Run

open Execution

-- Rules for code that runs next to other code. All of it keeps an invariant of the shared state, and
-- each part relies on the others to do so between any two of its steps.
namespace Async

variable {op : Type} {res : op → Type} {α β σ ι : Type}
variable {exec : (o : op) → σ → Option (res o × σ)} {I : σ → Prop}

-- The code keeps the invariant, and returns nothing but what satisfies `Q`. It may throw.
def Keeps (exec : (o : op) → σ → Option (res o × σ)) (I : σ → Prop) (Q : α → Prop) :
    Async op res α → Prop
  | done a    => Q a
  | throw     => True
  | await o k => ∀ ok s, I s →
    I (outcome exec o ok s).2 ∧ (k (outcome exec o ok s).1).Keeps exec I Q

namespace Keeps

variable {Q : α → Prop} {R : β → Prop} {c : Async op res α} {f : α → Async op res β}

theorem mono {Q' : α → Prop} (hq : ∀ a, Q a → Q' a) (h : c.Keeps exec I Q) : c.Keeps exec I Q' := by
  induction c
  case done    => exact hq _ h
  case throw   => trivial
  case await hi => exact fun ok s hs => ⟨(h ok s hs).left, hi _ (h ok s hs).right⟩

theorem bind (h : c.Keeps exec I Q) (hf : ∀ a, Q a → (f a).Keeps exec I R) :
    (c >>= f).Keeps exec I R := by
  induction c
  case done     => exact hf _ h
  case throw    => trivial
  case await hi => exact fun ok s hs => ⟨(h ok s hs).left, hi _ (h ok s hs).right⟩

theorem tryCatch {d : Async op res α} (h : c.Keeps exec I Q) (hd : d.Keeps exec I Q) :
    (c.tryCatch d).Keeps exec I Q := by
  induction c
  case done     => exact h
  case throw    => exact hd
  case await hi => exact fun ok s hs => ⟨(h ok s hs).left, hi _ (h ok s hs).right⟩

-- An operation, given what it does and hands back when it is carried out.
theorem perform {o : op} {Q : res o → Prop}
    (h : ∀ s r s', I s → exec o s = some (r, s') → I s' ∧ Q r) :
    (Async.perform o : Async op res (res o)).Keeps exec I Q := by
  intro ok s hs
  cases ok
  case false => exact ⟨hs, trivial⟩
  case true =>
    simp only [outcome]
    cases he : exec o s
    case none   => exact ⟨hs, trivial⟩
    case some p => exact h s p.1 p.2 hs he

theorem ofOption {o : Option α} (h : ∀ a, o = some a → Q a) : (Async.ofOption o).Keeps exec I Q := by
  cases o
  case none   => trivial
  case some a => exact h a rfl

theorem done {a : α} (h : Q a) : (Async.done a : Async op res α).Keeps exec I Q :=
  h

theorem throw : (Async.throw : Async op res α).Keeps exec I Q :=
  trivial

theorem step {c' : Async op res α} (h : c.Keeps exec I Q) (hs : I s)
    (hc : (machine exec).step c ok s = some (c', s')) : c'.Keeps exec I Q ∧ I s' := by
  cases c
  case await o k =>
    obtain ⟨rfl, rfl⟩ := Prod.mk.inj (Option.some.inj hc)
    exact ⟨(h ok s hs).right, (h ok s hs).left⟩
  all_goals cases hc

-- However pieces of code that keep an invariant are interleaved, it holds in every state.
theorem run [DecidableEq ι] {p q : Machine.Pool σ (Async op res α) ι}
    (h : ∀ i, (p.threads i).Keeps exec I Q) (hs : I p.store)
    (r : Run (Fires (Machine.Pool.step (machine exec))) p es q) : I q.store := by
  refine (r.invariant (I := fun p => I p.store ∧ ∀ i, (p.threads i).Keeps exec I Q) ?_ ⟨hs, h⟩).left
  intro p e p' ⟨hs, h⟩ hp
  obtain ⟨t, s, ht, rfl⟩ := Machine.Pool.step_eq_some.mp hp
  have ⟨hc, hs⟩ := (h e.1).step hs ht
  refine ⟨hs, fun i => ?_⟩
  by_cases hi : i = e.1
  case pos => simpa [hi] using hc
  case neg => simpa [hi] using h i

end Keeps
end Async
