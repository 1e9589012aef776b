import FeelingsOverflow.Screens.Sound
import FeelingsOverflow.Functionality.Settle

open Firestore FirebaseMethods Execution Call

namespace App

-- The points at which the calls about a pair of users are suspended.
def controls (u v : Uid) (calls : List (Launched Paused)) : List Control :=
  calls.filter (·.thread.pair = (u, v)) |>.map (·.thread.control)

-- What can be seen of a step, when only one pair of users is observed.
inductive Observed (u v : Uid) (p p' : App Paused) : Event → Prop
  | user : p.screens.React p.store a p'.screens cs → pairView u v p'.store = pairView u v p.store →
    controls u v p'.calls = controls u v p.calls ++ (cs.filter (·.pair = (u, v))).map (·.paused.control) →
    Observed u v p p' (.user a)
  | act : p.calls[i]? = some l → l.thread = ⟨u, v, c⟩ → c ≠ .returned →
    controls u v p.calls = xs ++ c :: ys →
    controls u v p'.calls = xs ++ (PairView.act c (pairView u v p.store)).1 :: ys →
    pairView u v p'.store = (PairView.act c (pairView u v p.store)).2 →
    Observed u v p p' (.call i true)
  | fail : p.calls[i]? = some l → l.thread.pair = (u, v) → Observed u v p p' (.call i false)
  | other : (∀ a, e ≠ .user a) →
    (∀ i ok l, e = .call i ok → p.calls[i]? = some l → l.thread.pair ≠ (u, v)) →
    pairView u v p'.store = pairView u v p.store → controls u v p'.calls = controls u v p.calls →
    Observed u v p p' e

variable {u v : Uid}

theorem controls_launched (s : Users) (a : UserAction) (cs : List Call) :
    controls u v (cs.map (launch paused s a)) =
      (cs.filter (·.pair = (u, v))).map (·.paused.control) := by
  simp [controls, List.filter_map, Function.comp_def, launch]

@[simp]
theorem controls_append (xs ys : List (Launched Paused)) :
    controls u v (xs ++ ys) = controls u v xs ++ controls u v ys := by
  simp [controls]

theorem controls_cons (l : Launched Paused) (ys : List (Launched Paused)) :
    controls u v (l :: ys) =
      if l.thread.pair = (u, v) then l.thread.control :: controls u v ys else controls u v ys := by
  by_cases hl : l.thread.pair = (u, v) <;> simp [controls, hl]

theorem exists_of_set {xs : List α} (h : xs[i]? = some x) (y : α) :
    ∃ xs₁ xs₂, xs = xs₁ ++ x :: xs₂ ∧ xs.set i y = xs₁ ++ y :: xs₂ := by
  obtain ⟨hi, rfl⟩ := List.getElem?_eq_some_iff.mp h
  have ⟨xs₁, xs₂, hx, _, hy⟩ : ∃ xs₁ xs₂, xs = xs₁ ++ xs[i] :: xs₂ ∧ xs₁.length = i ∧
    xs.set i y = xs₁ ++ y :: xs₂ := List.exists_of_set hi
  exact ⟨xs₁, xs₂, hx, hy⟩

theorem Sound.observed {p p' : App Paused} (h : p.Sound) (hs : Step Paused.machine paused p e p')
    (u v : Uid) : Observed u v p p' e := by
  cases hs
  case user hr => exact .user hr rfl (by simp [controls_launched])
  case call i l ok t st hi hm =>
    obtain ⟨xs, ys, hx, hy⟩ := exists_of_set hi { l with thread := t }
    have hp := Paused.step_pair hm
    by_cases ho : l.thread.pair = (u, v)
    case neg =>
      refine .other (by simp) ?_ (pairView.other_step (h l (List.mem_of_getElem? hi)).sound ho hm) ?_
      · intro j _ l' he hj
        cases he
        rw [hi] at hj
        cases hj
        exact ho
      · simp only [hy]
        simp [hx, controls_cons, hp, ho]
    case pos =>
      cases ok
      case false => exact .fail hi ho
      case true =>
        obtain ⟨rfl, rfl⟩ := Prod.mk.inj ho
        have ⟨hn, ha⟩ := PairView.act_of_step (pairView.own_step hm)
        let cs := controls l.thread.uid l.thread.other
        have hc : cs p.calls = cs xs ++ l.thread.control :: cs ys := by
          simp [cs, hx, controls_cons, ho]
        refine .act hi rfl hn hc ?_ (by rw [ha])
        rw [ha]
        simp only [hy]
        simp [cs, controls_cons, hp, ho]
  case resume i l x page hi ha hp hf =>
    obtain ⟨xs, ys, hx, hy⟩ := exists_of_set hi { l with awaitedBy := none }
    refine .other (by simp) (by simp) rfl ?_
    simp only [hy]
    simp [hx, controls_cons]

end App
