import FeelingsOverflow.Screens.Pair
import FeelingsOverflow.Screens.Theorems.Representation

open Firestore FirebaseMethods Execution Machine Call

-- What happens without a user's doing and without failures.
def Event.isInternal : Event → Bool
  | .call _ ok => ok
  | .resume _  => true
  | .user _    => false

namespace App

variable {θ θ' : Type} {M : Machine Users θ} {start : Call → θ}

def quiescentOf (M : Machine Users θ) (p : App θ) : Bool :=
  p.calls.all fun l => M.finished l.thread && l.awaitedBy.isNone

-- An action, followed by all that it leads to, in some order.
def completeOf (M : Machine Users θ) (start : Call → θ) (p : App θ) (a : UserAction × List Event) :
    Option (App θ) := do
  let p₁ ← stepOf M start p (.user a.1)
  let p₂ ← Fires.exec (stepOf M start) p₁ a.2
  if a.2.all Event.isInternal && quiescentOf M p₂ then some p₂ else none

def complete : App (Task Uid Unit) → UserAction × List Event → Option (App (Task Uid Unit)) :=
  completeOf Call.machine Call.code

def pausedComplete : App Paused → UserAction × List Event → Option (App Paused) :=
  completeOf Paused.machine paused

theorem quiescentOf_map {M' : Machine Users θ'} (f : Hom M M') (p : App θ) :
    quiescentOf M' (p.map f.map) = quiescentOf M p := by
  simp [quiescentOf, Launched.map, f.finished_map, Function.comp_def]

theorem complete_map (p : App Paused) (a : UserAction × List Event) :
    complete (p.map Paused.code) a = (pausedComplete p a).map (map Paused.code) := by
  have hs := step_map p (.user a.1)
  have he := Fires.exec_map step_map
  have hq := quiescentOf_map Paused.hom
  simp only [step, pausedStep] at hs he
  simp only [complete, pausedComplete, completeOf, hs]
  cases stepOf Paused.machine paused p (.user a.1)
  case none => rfl
  case some p₁ =>
    simp only [Option.map_some, Option.bind_eq_bind, Option.bind_some, he]
    cases Fires.exec (stepOf Paused.machine paused) p₁ a.2
    case none => rfl
    case some p₂ =>
      simp only [Option.map_some, Option.bind_some]
      rw [show quiescentOf Call.machine (p₂.map Paused.code) = _ from hq p₂]
      split <;> rfl

theorem of_completeOf {p p' : App θ} (h : completeOf M start p (a, es) = some p') :
    ∃ p₁, Step M start p (.user a) p₁ ∧
      Run (Guarded (fun _ e => e.isInternal) (Fires (stepOf M start))) p₁ es p' ∧
      quiescentOf M p' := by
  simp only [completeOf, Option.bind_eq_bind, Option.bind_eq_some_iff, Option.ite_none_right_eq_some,
    Bool.and_eq_true, List.all_eq_true, Option.some.injEq] at h
  obtain ⟨p₁, hs, p₂, he, ⟨hi, hq⟩, rfl⟩ := h
  exact ⟨p₁, stepOf_iff.mp hs, (Fires.run_iff_exec.mpr he).guard hi, hq⟩

-- While calls about a pair are in flight, nobody launches another one, and none of their steps fails.
def Undisturbed (u v : Uid) (p : App θ) (e : Event) : Prop :=
  (∀ a sc cs, e = .user a → p.screens.React p.store a sc cs → ∀ c ∈ cs, c.pair ≠ (u, v)) ∧
  (∀ i l, e = .call i false → p.calls[i]? = some l → l.call.pair ≠ (u, v))

theorem undisturbed_of_isInternal (h : e.isInternal) (p : App θ) (u v : Uid) :
    Undisturbed u v p e := by
  constructor
  · rintro _ _ _ rfl
    simp [Event.isInternal] at h
  · rintro _ _ rfl
    simp [Event.isInternal] at h

theorem run_undisturbed {p p' : App θ} (h : Fires.exec (stepOf M start) p es = some p')
    (hi : es.all Event.isInternal) (u v : Uid) :
    Run (Guarded (Undisturbed u v) (Fires (stepOf M start))) p es p' := by
  have r := (Fires.run_iff_exec.mpr h).guard (List.all_eq_true.mp hi)
  exact r.mono fun h => ⟨undisturbed_of_isInternal h.left .., h.right⟩

-- Where the calls about a pair that are in flight lead to.
def settled (u v : Uid) (p : App Paused) : PairView :=
  PairView.serial.settle (controls u v p.calls) (pairView u v p.store)

structure Serializable (u v : Uid) (w : PairView) (p : App Paused) : Prop where
  sound : p.Sound
  independent : (controls u v p.calls).Pairwise Control.Independent
  settled : p.settled u v = w

theorem Serializable.step {p p' : App Paused} (h : Serializable u v w p) (hu : Undisturbed u v p e)
    (hs : Step Paused.machine paused p e p') : Serializable u v w p' := by
  have ho := h.sound.observed hs u v
  cases ho
  case user a cs hr hw hc =>
    have hn : cs.filter (·.pair = (u, v)) = [] := by
      simpa using hu.left _ _ _ rfl hr
    simp only [hn, List.map_nil, List.append_nil] at hc
    refine ⟨h.sound.step hs, hc ▸ h.independent, ?_⟩
    rw [App.settled, hc, hw]
    exact h.settled
  case act hc hc' hw =>
    have hi := h.independent
    rw [hc] at hi
    refine ⟨h.sound.step hs, hc' ▸ PairView.serial.pairwise_act hi _, ?_⟩
    rw [App.settled, hc', hw]
    exact (PairView.serial.settle_act hi _).trans (hc ▸ h.settled)
  case fail i l hi hl =>
    refine absurd ?_ (hu.right i l rfl hi)
    rw [←(h.sound l (List.mem_of_getElem? hi)).pair, hl]
  case other hw hc _ _ =>
    refine ⟨h.sound.step hs, hc ▸ h.independent, ?_⟩
    rw [App.settled, hc, hw]
    exact h.settled

-- When the calls have returned, the pair is where they led to.
theorem Serializable.pairView_eq {p : App Paused} (h : Serializable u v w p)
    (hr : ∀ c ∈ controls u v p.calls, c = .returned) : pairView u v p.store = w := by
  rw [←h.settled, App.settled]
  refine (Serial.settle_of_finished (fun c hc s => ?_) _).symm
  rw [hr c hc]
  rfl

theorem controls_returned {p : App Paused}
    (h : ∀ l ∈ p.calls, l.thread.pair = (u, v) → Paused.machine.finished l.thread) :
    ∀ c ∈ controls u v p.calls, c = .returned := by
  intro c hc
  simp only [controls, List.mem_map, List.mem_filter, decide_eq_true_eq] at hc
  obtain ⟨l, ⟨hl, hp⟩, rfl⟩ := hc
  exact l.thread.finished_iff.mp (h l hl hp)

-- The calls which one action launches are independent.
theorem independent_of_react {sc sc' : Screens} (h : sc.React s a sc' cs) :
    (cs.map fun c => c.paused.control).Pairwise Control.Independent := by
  cases h
  case press page b _ _ =>
    cases b
    case unfollow =>
      simp only [OtherUserProfile.launches]
      split <;> simp
    all_goals simp [OtherUserProfile.launches]
  case accept => simp [SearchTab.accept, paused, Control.Independent, Control.kind]
  case reject => simp [SearchTab.reject]
  all_goals simp

-- Who is shown to follow has a document.
def Shown (sc : Screens) (s : Users) : Prop :=
  ∀ page ∈ sc.profiles, page.isFollowing → (s page.currentUser).isSome

-- The app between two completed actions.
structure Resting (p : App Paused) : Prop where
  sound : p.Sound
  represented : p.Represented
  quiescent : quiescentOf Paused.machine p
  regular : ∀ u v, (pairView u v p.store).Regular
  shown : Shown p.screens p.store

theorem resting_initial (h : Fresh s) : (initial s).Resting where
  sound       := sound_initial s
  represented := represented_initial h
  quiescent   := rfl
  regular     := PairView.regular_of_fresh h
  shown       := by simp [Shown, initial]

namespace Resting

variable {p p' : App Paused}

theorem returned (h : p.Resting) (u v : Uid) : ∀ c ∈ controls u v p.calls, c = .returned := by
  have hq := h.quiescent
  simp only [quiescentOf, List.all_eq_true, Bool.and_eq_true] at hq
  exact controls_returned fun l hl _ => (hq l hl).left

-- The pair after the calls about it, which an action has launched, have been carried out.
def after (u v : Uid) (cs : List Call) (w : PairView) : PairView :=
  PairView.serial.settle ((cs.filter (·.pair = (u, v))).map (·.paused.control)) w

theorem after_nil (w : PairView) : after u v [] w = w :=
  rfl

theorem after_single (c : Call) (w : PairView) :
    after u v [c] w = if c.pair = (u, v) then PairView.finish c.paused.control w else w := by
  by_cases hc : c.pair = (u, v) <;> simp [after, hc]

theorem after_accept {w : PairView} (h : w.Regular) : after u v [followUser u v, stopFollow u v] w =
    if w.uid ∧ w.other then
      { w with following := .list !w.followers, followers := !w.followers, requests := .list false }
    else if w.other then { w with requests := .list false }
    else w := by
  simpa [after, pair, paused] using h.finish_accept

theorem serializable (h : p.Resting) (hr : p.screens.React p.store a sc cs) (u v : Uid) :
    Serializable u v (after u v cs (pairView u v p.store))
      { p with screens := sc, calls := p.calls ++ cs.map (launch paused p.store a) } where
  sound := h.sound.step (.user hr)
  independent := by
    have hi := independent_of_react hr
    rw [controls_append, controls_launched, List.pairwise_append]
    refine ⟨?_, hi.sublist (List.filter_sublist.map _), fun c hc _ _ => ?_⟩
    · exact List.pairwise_of_forall_mem_list fun c hc _ _ => .inl (by rw [h.returned u v c hc]; rfl)
    · exact .inl (by rw [h.returned u v c hc]; rfl)
  settled := by
    have hr : ∀ c ∈ controls u v p.calls, ∀ w, PairView.serial.finish c w = w := by
      intro c hc w
      rw [h.returned u v c hc]
      rfl
    rw [App.settled, controls_append, controls_launched, Serial.settle_append]
    rw [Serial.settle_of_finished hr]
    rfl

theorem shown_of_react (h : p.Resting) (hr : p.screens.React p.store a sc cs) :
    Shown sc p.store := by
  cases hr
  case openProfile u v posts =>
    intro page hp hf
    rcases List.mem_append.mp hp with hp | hp
    · exact h.shown page hp hf
    · obtain rfl := List.mem_singleton.mp hp
      rcases OtherUserProfile.getData_isFollowing hf with hf | ⟨d, n, hd, hc⟩
      · simp [OtherUserProfile.initial] at hf
      · simp only [Option.map_eq_some_iff, Prod.mk.injEq] at hd
        obtain ⟨_, _, hd, _⟩ := hd
        simp only [OtherUserProfile.getData_currentUser, OtherUserProfile.initial] at hc ⊢
        have hw : u ∈ elements p.store v "followers" := by
          obtain ⟨xs, hx, _⟩ := (h.represented.store v (by simp [hd])).right "followers" (by simp)
          simp only [field, hd, Option.bind_some] at hx
          simpa [elements, field, hd, hx, dynamicContains] using hc
        exact ((h.regular u v).followers (followers_iff.mpr hw)).left
  case press q page b hp _ =>
    intro page' hp' hf
    rcases List.mem_or_eq_of_mem_set hp' with hp' | rfl
    · exact h.shown page' hp' hf
    · rw [OtherUserProfile.press_currentUser]
      exact h.shown page (List.mem_of_getElem? hp) (by cases b <;> exact hf)
  all_goals exact h.shown

theorem isSome_step {p p' : App Paused} (hs : Step Paused.machine paused p e p') (u : Uid) :
    (p'.store u).isSome = (p.store u).isSome := by
  cases hs
  case call hm => cases Paused.step_cases hm <;> simp
  all_goals rfl

theorem shown_of_step (hs : Step Paused.machine paused p e p') (he : e.isInternal)
    (h : Shown p.screens p.store) : Shown p'.screens p'.store := by
  intro page hp hf
  rw [isSome_step hs]
  cases hs
  case user => simp [Event.isInternal] at he
  case call => exact h page hp hf
  case resume page' hp' _ =>
    rcases List.mem_or_eq_of_mem_set hp with hp | rfl
    · exact h page hp hf
    · simp [OtherUserProfile.unfollowed] at hf

-- A completed action leads from one resting state to another one. To each pair of users it does what
-- the calls about the pair do, one after another.
theorem complete (h : p.Resting) (hc : pausedComplete p (a, es) = some p') :
    p'.Resting ∧ ∃ sc cs, p.screens.React p.store a sc cs ∧
      ∀ u v, pairView u v p'.store = after u v cs (pairView u v p.store) := by
  obtain ⟨p₁, hs, r, hq⟩ := of_completeOf hc
  have hr₁ := h.represented.step hs
  cases hs
  case user sc cs hr =>
    have hv (u v : Uid) : pairView u v p'.store = after u v cs (pairView u v p.store) := by
      have hp := r.invariant (fun h hs => h.step (undisturbed_of_isInternal hs.left ..)
        (stepOf_iff.mp hs.right)) (h.serializable hr u v)
      refine hp.pairView_eq <| controls_returned fun l hl _ => ?_
      simp only [quiescentOf, List.all_eq_true, Bool.and_eq_true] at hq
      exact (hq l hl).left
    refine ⟨?_, sc, cs, hr, hv⟩
    constructor
    case quiescent => exact hq
    case sound =>
      exact r.invariant (fun h hs => h.step (stepOf_iff.mp hs.right)) (h.sound.step (.user hr))
    case represented => exact r.invariant (fun h hs => h.step (stepOf_iff.mp hs.right)) hr₁
    case regular =>
      intro u v
      rw [hv]
      exact (h.regular u v).settle _
    case shown =>
      exact r.invariant (I := fun p => Shown p.screens p.store)
        (fun h hs => shown_of_step (stepOf_iff.mp hs.right) hs.left h) (h.shown_of_react hr)

end Resting
end App
