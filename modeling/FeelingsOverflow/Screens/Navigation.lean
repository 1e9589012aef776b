import FeelingsOverflow.Screens.DashBoard

namespace Navigation

-- What a route shows. The tabs of the dashboard take each other's place in one route.
inductive Page
  | loginScreen | registrationScreen
  | dashBoard (tab : Tab)
  | newPostScreen | diaryPostingScreen | snipScreen | postReaderScreen
  | diaryCreatorScreen | diaryEditorScreen | alertDialog
  | followerScreen | followingScreen | otherUserProfile | editProfile
  deriving DecidableEq, Repr

-- What a handler awaits before it navigates.
inductive Await
  | logIn | createUser | signIn | signOut | changeDetails | addDiary
  deriving DecidableEq, Repr

namespace Page

-- The screens that are pushed from a screen.
def offers : Page → List Page
  | loginScreen             => [registrationScreen]
  | dashBoard .homeTab      => [newPostScreen, postReaderScreen]
  | dashBoard .searchTab    => [otherUserProfile]
  | dashBoard .myDiariesTab => [diaryEditorScreen, diaryCreatorScreen]
  | dashBoard .profileTab   => [followerScreen, followingScreen, editProfile, postReaderScreen]
  | newPostScreen           => [diaryPostingScreen]
  | diaryPostingScreen      => [snipScreen]
  | diaryEditorScreen       => [alertDialog]
  | followerScreen          => [otherUserProfile]
  | followingScreen         => [otherUserProfile]
  | _                       => []

-- How many routes the buttons of a screen pop at once.
def closes : Page → List Nat
  | registrationScreen => [1]
  | diaryPostingScreen => [2]
  | snipScreen         => [3]
  | diaryEditorScreen  => [1]
  | alertDialog        => [1, 2]
  | _                  => []

-- What the buttons of a screen start to await.
def starts : Page → List Await
  | loginScreen           => [.logIn]
  | registrationScreen    => [.createUser]
  | dashBoard .profileTab => [.signOut]
  | editProfile           => [.changeDetails]
  | diaryCreatorScreen    => [.addDiary]
  | _                     => []

end Page

namespace Await

-- How many routes are popped afterwards, and what is pushed then.
def pops : Await → Nat
  | createUser => 0
  | signIn     => 2
  | _          => 1

def pushes : Await → Option Page
  | logIn   => some <| .dashBoard .homeTab
  | signIn  => some <| .dashBoard .homeTab
  | signOut => some .loginScreen
  | _       => none

-- What the handler awaits next.
def next : Await → Option Await
  | createUser => some .signIn
  | _          => none

-- Whether there is a current user afterwards.
def currentUser (before : Bool) : Await → Bool
  | logIn | createUser | signIn => true
  | signOut                     => false
  | _                           => before

-- Whether a spinner covers the screen meanwhile. That of the profile's editor is never shown.
def inAsyncCall : Await → Bool
  | logIn | createUser | signIn => true
  | _                           => false

-- The document that is written is one of the current user's.
def needsUser : Await → Bool
  | changeDetails | addDiary => true
  | _                        => false

end Await

structure Route where
  context : Nat
  page : Page
  deriving DecidableEq, Repr

structure Handler where
  context : Nat
  await : Await
  deriving DecidableEq, Repr

end Navigation

open Navigation

-- The routes of the navigator, the last pushed first. A route that has been popped stays mounted
-- until its animation has ended.
structure Navigation where
  routes : List Route
  leaving : List Nat
  handlers : List Handler
  currentUser : Bool
  next : Nat
  deriving DecidableEq, Repr

namespace Navigation

inductive Event
  | push (page : Page)
  | back
  | close (n : Nat)
  | onTap (index : Tab)
  | start (a : Await)
  | complete (i : Nat) (ok : Bool)
  | dispose (context : Nat)
  deriving DecidableEq, Repr

-- The first route is the login screen, also if somebody is signed in.
def initial (currentUser : Bool) : Navigation where
  routes      := [⟨0, .loginScreen⟩]
  leaving     := []
  handlers    := []
  currentUser := currentUser
  next        := 1

variable (s : Navigation)

def mounted (context : Nat) : Prop :=
  context ∈ s.routes.map Route.context ∨ context ∈ s.leaving

instance mountedDecidable (context : Nat) : Decidable (s.mounted context) :=
  inferInstanceAs (Decidable (_ ∨ _))

def push (page : Page) : Navigation :=
  { s with routes := ⟨s.next, page⟩ :: s.routes, next := s.next + 1 }

-- With fewer routes than that, the last of the pops throws when there are none left.
def pop (n : Nat) : Navigation :=
  { s with routes := s.routes.drop n, leaving := (s.routes.take n).map Route.context ++ s.leaving }

-- Nothing is pushed after a pop that has thrown.
def leave (a : Await) : Navigation :=
  match a.pushes with
  | some page => if a.pops ≤ s.routes.length then (s.pop a.pops).push page else s.pop a.pops
  | none      => s.pop a.pops

def await (h : Handler) : Navigation :=
  { s with handlers := s.handlers ++ [h] }

def proceed (h : Handler) : Navigation :=
  match h.await.next with
  | some a => s.await ⟨h.context, a⟩
  | none   => s

def authenticate (a : Await) : Navigation :=
  { s with currentUser := a.currentUser s.currentUser }

-- A handler whose context is no longer mounted throws as soon as it uses it.
def completed (h : Handler) : Navigation :=
  if s.mounted h.context then (s.authenticate h.await).leave h.await |>.proceed h
  else s.authenticate h.await

def covered (route : Route) : Prop :=
  ∃ h ∈ s.handlers, h.context = route.context ∧ h.await.inAsyncCall

instance coveredDecidable (route : Route) : Decidable (s.covered route) :=
  inferInstanceAs (Decidable (∃ h ∈ s.handlers, _))

def drop (i : Nat) : Navigation :=
  { s with handlers := s.handlers.eraseIdx i }

-- Another tab has a context of its own.
def select (index : Tab) (routes : List Route) : Navigation :=
  { s with routes := ⟨s.next, .dashBoard index⟩ :: routes, next := s.next + 1 }

-- The spinner covers the buttons of a screen. It does not keep its user from going back.
def step : Event → Option Navigation
  | .push page => do
    let route ← s.routes.head?
    if ¬s.covered route ∧ page ∈ route.page.offers then some (s.push page) else none
  | .back => if 1 < s.routes.length then some (s.pop 1) else none
  | .close n => do
    let route ← s.routes.head?
    if ¬s.covered route ∧ n ∈ route.page.closes then some (s.pop n) else none
  | .onTap index =>
    match s.routes with
    | ⟨_, .dashBoard current⟩ :: routes =>
      some <| if index = current then s else s.select index routes
    | _ => none
  | .start a => do
    let route ← s.routes.head?
    if ¬s.covered route ∧ a ∈ route.page.starts ∧ (a.needsUser → s.currentUser) then
      some (s.await ⟨route.context, a⟩)
    else none
  | .complete i ok => do
    let h ← s.handlers[i]?
    return if ok then (s.drop i).completed h else s.drop i
  | .dispose context =>
    if context ∈ s.leaving then some { s with leaving := s.leaving.erase context } else none

end Navigation
