import FeelingsOverflow.Screens.OtherUserProfile
import FeelingsOverflow.Screens.SearchTab

open Firestore FirebaseMethods Execution

-- What a user can do. Pages are opened with the number of the posts that were loaded, or `none` if
-- loading has failed. A tap is one on the given page or list.
inductive UserAction
  | openProfile (currentUser uid : Uid) (posts : Option Nat)
  | openSearchTab (currentUser : Uid) (loaded : Bool)
  | press (page : Nat) (button : OtherUserProfile.Button)
  | accept (tab : Nat) (uid : Uid)
  | reject (tab : Nat) (uid : Uid)
  deriving DecidableEq, Repr

-- The screens that are open on the devices of all users.
@[ext]
structure Screens where
  profiles : List OtherUserProfile
  searchTabs : List SearchTab

namespace Screens

-- The screens that result from an action, and the calls which it launches. Screens load their data
-- when they are opened, and only what a screen shows can be tapped.
def react (s : Screens) (store : Users) : UserAction → Option (Screens × List Call)
  | .openProfile u v posts =>
    let page := OtherUserProfile.getData (posts.map (store v, ·)) (.initial u v)
    some ({ s with profiles := s.profiles ++ [page] }, [])
  | .openSearchTab u loaded =>
    let tab := SearchTab.getRequests (if loaded then some (store u) else none) u
    some ({ s with searchTabs := s.searchTabs ++ [tab] }, [])
  | .press p b => do
    let page ← s.profiles[p]?
    if page.build = some b then
      some ({ s with profiles := s.profiles.set p (page.press b) }, page.launches b)
    else none
  | .accept k uid => do
    let tab ← s.searchTabs[k]?
    if uid ∈ tab.requestsUid then
      some ({ s with searchTabs := s.searchTabs.set k (tab.remove uid) }, tab.accept uid)
    else none
  | .reject k uid => do
    let tab ← s.searchTabs[k]?
    if uid ∈ tab.requestsUid then
      some ({ s with searchTabs := s.searchTabs.set k (tab.remove uid) }, tab.reject uid)
    else none

inductive React (s : Screens) (store : Users) : UserAction → Screens → List Call → Prop
  | openProfile : React s store (.openProfile u v posts)
      { s with profiles := s.profiles ++ [.getData (posts.map (store v, ·)) (.initial u v)] } []
  | openSearchTab : React s store (.openSearchTab u loaded)
      { s with searchTabs :=
          s.searchTabs ++ [.getRequests (if loaded then some (store u) else none) u] } []
  | press : s.profiles[p]? = some page → page.build = some b → React s store (.press p b)
      { s with profiles := s.profiles.set p (page.press b) } (page.launches b)
  | accept : s.searchTabs[k]? = some tab → uid ∈ tab.requestsUid → React s store (.accept k uid)
      { s with searchTabs := s.searchTabs.set k (tab.remove uid) } (tab.accept uid)
  | reject : s.searchTabs[k]? = some tab → uid ∈ tab.requestsUid → React s store (.reject k uid)
      { s with searchTabs := s.searchTabs.set k (tab.remove uid) } (tab.reject uid)

theorem react_iff {s s' : Screens} :
    s.react store a = some (s', calls) ↔ React s store a s' calls := by
  constructor
  · intro h
    cases a <;> simp only [react, Option.bind_eq_bind, Option.bind_eq_some_iff,
      Option.ite_none_right_eq_some, Option.some.injEq, Prod.mk.injEq] at h
    case openProfile   => obtain ⟨rfl, rfl⟩ := h; exact .openProfile
    case openSearchTab => obtain ⟨rfl, rfl⟩ := h; exact .openSearchTab
    case press         => obtain ⟨_, hp, hb, rfl, rfl⟩ := h; exact .press hp hb
    case accept        => obtain ⟨_, hk, hu, rfl, rfl⟩ := h; exact .accept hk hu
    case reject        => obtain ⟨_, hk, hu, rfl, rfl⟩ := h; exact .reject hk hu
  · rintro (_ | _ | ⟨hp, hb⟩ | ⟨hk, hu⟩ | ⟨hk, hu⟩)
    case openProfile   => rfl
    case openSearchTab => rfl
    case press         => simp [react, hp, hb]
    case accept        => simp [react, hk, hu]
    case reject        => simp [react, hk, hu]

-- A page is only changed by taps on it.
theorem React.profile {s s' : Screens} (h : React s store a s' calls)
    (hp : s.profiles[i]? = some page) :
    (∃ b, a = .press i b ∧ page.build = some b ∧ calls = page.launches b ∧
      s'.profiles[i]? = some (page.press b)) ∨
    (∀ b, a ≠ .press i b) ∧ s'.profiles[i]? = some page := by
  have ⟨hi, _⟩ := List.getElem?_eq_some_iff.mp hp
  cases h
  case openProfile => exact .inr ⟨by simp, by rwa [List.getElem?_append_left hi]⟩
  case press k _ b hk hb =>
    by_cases he : k = i
    case pos =>
      subst he
      obtain rfl := Option.some.inj (hk.symm.trans hp)
      exact .inl ⟨b, rfl, hb, rfl, List.getElem?_set_self hi⟩
    case neg => exact .inr ⟨by simp [he], by rwa [List.getElem?_set_ne he]⟩
  all_goals exact .inr ⟨by simp, hp⟩

theorem profiles_unfollowed {s : Screens} (hx : s.profiles[x]? = some page)
    (hp : s.profiles[i]? = some page') :
    (s.profiles.set x page.unfollowed)[i]? = some (if x = i then page'.unfollowed else page') := by
  by_cases he : x = i
  case pos =>
    subst he
    obtain rfl := Option.some.inj (hx.symm.trans hp)
    simp [(List.getElem?_eq_some_iff.mp hp).choose]
  case neg => simp [he, hp]

end Screens

-- The page which waits for the calls of an action.
def UserAction.awaitedBy : UserAction → Option Nat
  | press p .unfollow => some p
  | _                 => none

-- A call, together with its history: The action it was launched by, and whether the first of its
-- users was in `requests` of the second one then.
structure Launched (θ : Type) where
  call : Call
  action : UserAction
  requested : Bool
  awaitedBy : Option Nat
  thread : θ

def Launched.map (f : θ → θ') (l : Launched θ) : Launched θ' :=
  { l with thread := f l.thread }

-- The app as it runs on the devices of all users: The shared store, the screens, and the calls that
-- have been launched, each of which is given by what is left of it to run.
@[ext]
structure App (θ : Type) where
  store : Users
  screens : Screens
  calls : List (Launched θ)

-- Besides actions, calls take their steps, and a page that waits for a call continues when the call
-- has returned.
inductive Event
  | user (a : UserAction)
  | call (i : Nat) (ok : Bool)
  | resume (i : Nat)
  deriving DecidableEq, Repr

namespace App

open Machine

variable {θ θ' : Type}

def initial (store : Users) : App θ :=
  ⟨store, ⟨[], []⟩, []⟩

def launch (start : Call → θ) (store : Users) (a : UserAction) (c : Call) : Launched θ where
  call      := c
  action    := a
  requested := c.pair.1 ∈ elements store c.pair.2 "requests"
  awaitedBy := a.awaitedBy
  thread    := start c

-- The app, given how calls are started and scheduled.
def stepOf (M : Machine Users θ) (start : Call → θ) (s : App θ) : Event → Option (App θ)
  | .user a => do
    let (screens, calls) ← s.screens.react s.store a
    some { s with screens, calls := s.calls ++ calls.map (launch start s.store a) }
  | .call i ok => do
    let l ← s.calls[i]?
    let (thread, store) ← M.step l.thread ok s.store
    some { s with store, calls := s.calls.set i { l with thread } }
  | .resume i => do
    let l ← s.calls[i]?
    let p ← l.awaitedBy
    let page ← s.screens.profiles[p]?
    if M.finished l.thread then
      some { s with
        screens.profiles := s.screens.profiles.set p page.unfollowed
        calls := s.calls.set i { l with awaitedBy := none } }
    else none

def step : App (Task Uid Unit) → Event → Option (App (Task Uid Unit)) :=
  stepOf Call.machine Call.code

def pausedStep : App Call.Paused → Event → Option (App Call.Paused) :=
  stepOf Call.Paused.machine Call.paused

variable {M : Machine Users θ} {start : Call → θ}

inductive Step (M : Machine Users θ) (start : Call → θ) (s : App θ) : Event → App θ → Prop
  | user : s.screens.React s.store a sc cs → Step M start s (.user a)
      { s with screens := sc, calls := s.calls ++ cs.map (launch start s.store a) }
  | call : s.calls[i]? = some l → M.step l.thread ok s.store = some (t, st) →
      Step M start s (.call i ok)
        { s with store := st, calls := s.calls.set i { l with thread := t } }
  | resume : s.calls[i]? = some l → l.awaitedBy = some p → s.screens.profiles[p]? = some page →
      M.finished l.thread → Step M start s (.resume i)
        { s with
          screens.profiles := s.screens.profiles.set p page.unfollowed
          calls := s.calls.set i { l with awaitedBy := none } }

theorem stepOf_iff {s s' : App θ} : stepOf M start s e = some s' ↔ Step M start s e s' := by
  constructor
  · intro h
    cases e <;> simp only [stepOf, Option.bind_eq_bind, Option.bind_eq_some_iff,
      Option.ite_none_right_eq_some, Option.some.injEq, Prod.exists] at h
    case user   => obtain ⟨_, _, hr, rfl⟩ := h; exact .user (Screens.react_iff.mp hr)
    case call   => obtain ⟨_, hl, _, _, hs, rfl⟩ := h; exact .call hl hs
    case resume => obtain ⟨_, hl, _, ha, _, hp, hf, rfl⟩ := h; exact .resume hl ha hp hf
  · rintro (hr | ⟨hl, hs⟩ | ⟨hl, ha, hp, hf⟩)
    case user   => simp [stepOf, Screens.react_iff.mpr hr]
    case call   => simp [stepOf, hl, hs]
    case resume => simp [stepOf, hl, ha, hp, hf]

def map (f : θ → θ') (s : App θ) : App θ' :=
  { s with calls := s.calls.map (·.map f) }

@[simp]
theorem map_store (f : θ → θ') (s : App θ) : (s.map f).store = s.store :=
  rfl

@[simp]
theorem map_screens (f : θ → θ') (s : App θ) : (s.map f).screens = s.screens :=
  rfl

@[simp]
theorem map_calls (f : θ → θ') (s : App θ) : (s.map f).calls = s.calls.map (·.map f) :=
  rfl

@[simp]
theorem map_initial (f : θ → θ') (store : Users) : (initial store).map f = initial store :=
  rfl

theorem stepOf_map {M' : Machine Users θ'} (f : Hom M M') (start : Call → θ) (s : App θ) (e : Event) :
    stepOf M' (f.map ∘ start) (s.map f.map) e = (stepOf M start s e).map (map f.map) := by
  cases e
  case user a =>
    cases hr : s.screens.react s.store a <;>
      simp [stepOf, hr, map, launch, Launched.map, Function.comp_def]
  case call i ok =>
    cases hl : s.calls[i]?
    case none => simp [stepOf, hl]
    case some l =>
      cases hs : M.step l.thread ok s.store <;>
        simp [stepOf, hl, hs, f.step_map, Launched.map, map, List.map_set]
  case resume i =>
    cases hl : s.calls[i]?
    case none => simp [stepOf, hl]
    case some l =>
      obtain ⟨_, _, _, _ | p, thread⟩ := l
      case none => simp [stepOf, hl, Launched.map]
      case some =>
        cases hp : s.screens.profiles[p]? <;> by_cases hf : M.finished thread = true <;>
          simp [stepOf, hl, hp, hf, f.finished_map, map, List.map_set, Launched.map]

-- What is proved of the app with suspended calls holds of the app with the calls' code.
theorem step_map (s : App Call.Paused) (e : Event) :
    step (s.map Call.Paused.code) e = (pausedStep s e).map (map Call.Paused.code) := by
  have h := stepOf_map Call.Paused.hom Call.paused s e
  rwa [show Call.Paused.hom.map ∘ Call.paused = Call.code from funext Call.code_paused] at h

theorem run_map_iff {s : App Call.Paused} : Run (Fires step) (s.map Call.Paused.code) es q ↔
    ∃ p, Run (Fires pausedStep) s es p ∧ p.map Call.Paused.code = q :=
  Fires.run_map_iff step_map

theorem run_guarded_map_iff {s : App Call.Paused} {C : App (Task Uid Unit) → Event → Prop} :
    Run (Guarded C (Fires step)) (s.map Call.Paused.code) es q ↔
      ∃ p, Run (Guarded (C ∘ map Call.Paused.code) (Fires pausedStep)) s es p ∧
        p.map Call.Paused.code = q :=
  Fires.run_guarded_map_iff step_map

end App
