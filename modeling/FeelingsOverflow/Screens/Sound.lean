import FeelingsOverflow.Screens.App
import FeelingsOverflow.Functionality.PairView

open Firestore FirebaseMethods Execution

namespace Call

-- The points at which each of the calls can be suspended.
def controls : Call → List Control
  | requestFollow .. => [.requestFollow, .createRequest, .addRequest, .returned]
  | stopFollow ..    => [.stopFollow, .removeRequest, .returned]
  | followUser ..    =>
    [.followUser, .removeFollower, .removeFollowing, .addFollower, .addFollowing, .returned]

theorem paused_mem_controls (c : Call) : c.paused.control ∈ c.controls := by
  cases c <;> simp [paused, controls]

theorem returned_mem_controls (c : Call) : .returned ∈ c.controls := by
  cases c <;> simp [controls]

theorem next_mem_controls {c : Call} (h : x ∈ c.controls) : x.next ∈ c.controls := by
  cases c <;> simp only [controls, List.mem_cons, List.not_mem_nil, or_false] at h
  all_goals
    rcases h with rfl | rfl | rfl | rfl | rfl | rfl <;> simp [controls, Control.next]

theorem resume_mem_controls {c : Call} (h : x ∈ c.controls) (hg : x.get u v = some i) :
    x.resume u v data ∈ c.controls := by
  cases x <;> simp only [Control.get, reduceCtorEq] at hg
  all_goals
    cases c <;> simp only [controls, List.mem_cons, List.not_mem_nil, reduceCtorEq, or_false] at h
    simp only [Control.resume]
    repeat' split
    all_goals simp [controls]

theorem step_mem_controls {c : Call} {p p' : Paused} (h : p.control ∈ c.controls)
    (hs : Paused.machine.step p ok s = some (p', s')) : p'.control ∈ c.controls := by
  cases Paused.step_cases hs
  case get hg _ _    => exact resume_mem_controls h hg
  case update hu _ _ => exact next_mem_controls h
  case fail          => exact returned_mem_controls c

end Call

open Call

-- What is known about a launched call.
structure Launched.Sound (l : Launched Paused) (s : Users) : Prop where
  pair : l.thread.pair = l.call.pair
  control : l.thread.control ∈ l.call.controls
  sound : l.thread.Sound s

namespace App

-- A property of the launched calls is preserved by a step, if it holds of calls when they are
-- launched, and every step of a call and the end of its waiting preserve it.
theorem Step.forall_calls {M : Machine Users θ} {s s' : App θ} {P : Launched θ → Users → Prop}
    (hs : Step M start s e s') (h : ∀ l ∈ s.calls, P l s.store)
    (launched : ∀ {a sc cs c}, s.screens.React s.store a sc cs → c ∈ cs →
      P (launch start s.store a c) s.store)
    (step : ∀ {i l ok t st}, e = .call i ok → s.calls[i]? = some l →
      M.step l.thread ok s.store = some (t, st) →
      P { l with thread := t } st ∧ ∀ x ∈ s.calls, P x s.store → P x st)
    (resumed : ∀ {l}, l ∈ s.calls → P { l with awaitedBy := none } s.store) :
    ∀ l ∈ s'.calls, P l s'.store := by
  cases hs
  case user hr =>
    intro l hl
    rcases List.mem_append.mp hl with hl | hl
    · exact h l hl
    · obtain ⟨c, hc, rfl⟩ := List.mem_map.mp hl
      exact launched hr hc
  case call hi hm =>
    have ⟨ht, hx⟩ := step rfl hi hm
    exact List.forall_mem_set (fun l hl => hx l hl (h l hl)) ht
  case resume hi _ _ _ => exact List.forall_mem_set h <| resumed (List.mem_of_getElem? hi)

def Sound (s : App Paused) : Prop :=
  ∀ l ∈ s.calls, l.Sound s.store

theorem sound_initial (s : Users) : (initial s).Sound := by
  simp [Sound, initial]

theorem Sound.step {s s' : App Paused} (h : s.Sound) (hs : Step Paused.machine paused s e s') :
    s'.Sound := by
  refine hs.forall_calls h ?launched ?step ?resumed
  case launched =>
    intro a _ _ c _ _
    exact ⟨paused_pair c, paused_mem_controls c, Paused.sound_paused c s.store⟩
  case step =>
    intro i l ok t st _ hi hm
    have hl := h l (List.mem_of_getElem? hi)
    refine ⟨⟨?_, step_mem_controls hl.control hm, Paused.sound_step hl.sound hm⟩, ?_⟩
    · exact (Paused.step_pair hm).trans hl.pair
    · exact fun x hx _ => ⟨(h x hx).pair, (h x hx).control, Paused.sound_frame hm (h x hx).sound⟩
  case resumed =>
    intro l hl
    exact ⟨(h l hl).pair, (h l hl).control, (h l hl).sound⟩

end App
