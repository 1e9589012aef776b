import FeelingsOverflow.Screens.Journal

open Firestore

-- What is chosen when the screen is opened, and stays the same.
structure DiaryCreatorScreen where
  uid : Uid
  colorID : Nat
  offset : Int
  now : Int
  currentTimestamp : Int
  deriving DecidableEq, Repr

-- A route that has been popped stays for its exit animation, after which its state is disposed of.
inductive Phase
  | shown | leaving | disposed
  deriving DecidableEq, Repr

namespace DiaryCreatorScreen

-- The screen is the first of the routes as long as it is shown. None of the adds is awaited.
structure State where
  personalDiaries : Uid → Collection DocId
  adds : List Document
  routes : List String
  phase : Phase

inductive Event (δ : Type)
  | onPressed (title : String) (delta : δ)
  | complete (i : Nat) (id : DocId)
  | back
  | dispose

namespace State

def pop (s : State) : State where
  personalDiaries := s.personalDiaries
  adds            := s.adds
  routes          := s.routes.tail
  phase           := if s.phase = .shown then .leaving else s.phase

-- The callback of an add. Its `context` throws once the screen's state has been disposed of.
def added (s : State) : State :=
  if s.phase = .disposed then s else s.pop

end State

variable {δ : Type} (json : JsonCoding δ)

def opened (personalDiaries : Uid → Collection DocId) (routes : List String) : State where
  personalDiaries := personalDiaries
  adds            := []
  routes          := routes
  phase           := .shown

def step (screen : DiaryCreatorScreen) (s : State) : Event δ → Option State
  | .onPressed title delta =>
    let doc := diary json title delta screen.colorID screen.offset screen.now screen.currentTimestamp
    if s.phase = .shown then some { s with adds := s.adds ++ [doc] } else none
  | .complete i id => do
    let doc ← s.adds[i]?
    let personalDiaries ← Journal.add s.personalDiaries screen.uid id doc
    return State.added { s with personalDiaries, adds := s.adds.eraseIdx i }
  | .back => if s.phase = .shown then some s.pop else none
  | .dispose => if s.phase = .leaving then some { s with phase := .disposed } else none

end DiaryCreatorScreen
