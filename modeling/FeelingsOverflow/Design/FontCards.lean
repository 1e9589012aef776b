import Mathlib

structure Font where
  fontName : String
  fontFamily : String
  deriving DecidableEq, Repr

structure FontCard where
  cardIndex : Nat
  font : Font
  deriving DecidableEq, Repr

-- A card on the screen, with its own state.
structure MountedCard where
  card : FontCard
  isSelected : Bool
  deriving DecidableEq, Repr

-- The cards on the screen, in the order in which they listen to `selectedCardNotifier`, and the values
-- of the notifiers that they share.
structure FontCards where
  mounted : List MountedCard
  selectedCardNotifier : Int
  selectedFontNotifier : Option Font
  deriving DecidableEq, Repr

inductive CardEvent
  | mount (card : FontCard)
  | dispose (i : Nat)
  | tap (i : Nat)
  deriving DecidableEq, Repr

namespace FontCards

def start : FontCards where
  mounted              := []
  selectedCardNotifier := -1
  selectedFontNotifier := none

def initState (s : FontCards) (card : FontCard) : FontCards :=
  { s with mounted := s.mounted ++ [⟨card, s.selectedCardNotifier = card.cardIndex⟩] }

def dispose (s : FontCards) (i : Nat) : FontCards :=
  { s with mounted := s.mounted.eraseIdx i }

def updateSelectedCard (s : FontCards) (i : Nat) : FontCards :=
  match s.mounted[i]? with
  | none   => s
  | some c =>
    let isSelected : Bool := s.selectedCardNotifier = c.card.cardIndex
    { s with
      mounted              := s.mounted.set i { c with isSelected }
      selectedFontNotifier := if isSelected then some c.card.font else none }

-- A notifier calls its listeners when its value changes, in the order in which they were added.
def setSelectedCard (s : FontCards) (value : Int) : FontCards :=
  if s.selectedCardNotifier = value then s
  else
    (List.range s.mounted.length).foldl updateSelectedCard { s with selectedCardNotifier := value }

def onCardSelected (s : FontCards) (i : Nat) (c : MountedCard) : FontCards :=
  if c.isSelected then
    (s.setSelectedCard (-1)).updateSelectedCard i
  else
    (s.setSelectedCard c.card.cardIndex).updateSelectedCard i

-- The list of the cards shows and disposes of them as it is scrolled.
def step (cards : List FontCard) (s : FontCards) : CardEvent → Option FontCards
  | .mount card => if card ∈ cards then some (s.initState card) else none
  | .dispose i  => if i < s.mounted.length then some (s.dispose i) else none
  | .tap i      => s.mounted[i]?.map (s.onCardSelected i)

end FontCards
