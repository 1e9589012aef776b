import FeelingsOverflow.Design.FontCards
import FeelingsOverflow.Functionality.TextFormatting
import FeelingsOverflow.Functionality.JsonCoding

open RichText

-- The state of the screen, and for each of its font cards whether it is selected.
structure SnipScreen where
  isSelected : Nat → Bool
  selectedCardNotifier : Int
  selectedFontNotifier : Option Font
  selectedFont : String
  chosenBackground : String
  finalController : QuillController AttributeValue

inductive SnipEvent
  | tapCard (card : FontCard)
  | formatText
  | chooseBackground (image : String)
  | rebuild
  deriving DecidableEq, Repr

namespace SnipScreen

def fontCards : List FontCard := [
  ⟨0, ⟨"Rochester", "Rochester"⟩⟩,
  ⟨1, ⟨"Leckerli", "Leckerli One"⟩⟩,
  ⟨2, ⟨"Fredericka", "Fredericka the Great"⟩⟩,
  ⟨3, ⟨"Stalemate", "Stalemate"⟩⟩
]

def backgrounds : List String :=
  ["backgroundPastel", "waterColourBackground", "waterColourBlueBackground", "vibrantBackground"]

def updateSelectedCard (s : SnipScreen) (card : FontCard) : SnipScreen :=
  let isSelected : Bool := s.selectedCardNotifier = card.cardIndex
  { s with
    isSelected           := Function.update s.isSelected card.cardIndex isSelected
    selectedFontNotifier := if isSelected then some card.font else none }

-- A notifier calls its listeners, which are the cards, when its value changes.
def setSelectedCard (s : SnipScreen) (value : Int) : SnipScreen :=
  if s.selectedCardNotifier = value then s
  else fontCards.foldl updateSelectedCard { s with selectedCardNotifier := value }

def onCardSelected (s : SnipScreen) (card : FontCard) : SnipScreen :=
  if s.isSelected card.cardIndex then
    (s.setSelectedCard (-1)).updateSelectedCard card
  else
    (s.setSelectedCard card.cardIndex).updateSelectedCard card

-- The family for which the button is built. It is built again when the selected font changes.
def fontFamily (s : SnipScreen) : String :=
  s.selectedFontNotifier.elim s.selectedFont Font.fontFamily

variable (q : Editor AttributeValue) (quillController : QuillController AttributeValue)

def onFormatText (s : SnipScreen) : SnipScreen :=
  let finalController := TextFormatting.formatTextStyle q s.finalController s.fontFamily
  { s with
    selectedFont    := s.selectedFontNotifier.elim s.selectedFont Font.fontFamily
    finalController := TextFormatting.formatSize q finalController "huge" }

def build (s : SnipScreen) : Option SnipScreen := do
  let finalController ← WordSelector.createSelectedTextController q quillController
  return { s with finalController }

-- The screen as it is first shown.
def opened : Option SnipScreen := do
  let _startText ← WordSelector.getPlainTextSelection quillController
  build q quillController {
    isSelected _         := false
    selectedCardNotifier := -1
    selectedFontNotifier := none
    selectedFont         := "Rochester"
    chosenBackground     := "backgroundPastel"
    finalController      := .basic
  }

-- A background is chosen by `setState`, which rebuilds the screen. A tap on a card rebuilds the cards
-- only.
def step (s : SnipScreen) : SnipEvent → Option SnipScreen
  | .tapCard card           => if card ∈ fontCards then some (s.onCardSelected card) else none
  | .formatText             => some (s.onFormatText q)
  | .chooseBackground image =>
    if image ∈ backgrounds then
      build q quillController { s with chosenBackground := image }
    else
      none
  | .rebuild                => build q quillController s

-- What the post button hands to `postCard`. The insertions of a delta are the units of the text,
-- where neighbours with the same attributes are joined.
def posted (json : JsonCoding (List (StyledUnit AttributeValue))) (s : SnipScreen) :
    String × String :=
  (json.jsonEncode s.finalController.document.units, s.chosenBackground)

end SnipScreen
