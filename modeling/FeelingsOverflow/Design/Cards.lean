import FeelingsOverflow.Functionality.JsonCoding
import FeelingsOverflow.Functionality.FirebaseMethods
import FeelingsOverflow.Calendar.DateTime

open Firestore Calendar

namespace AppStyle

inductive Color
  | purple | red | pink | orange | yellow | green | blue | blueGrey
  deriving DecidableEq, Repr

def cardsColor : List Color :=
  [.purple, .red, .pink, .orange, .yellow, .green, .blue, .blueGrey]

-- `cardsColor[colorID]`, which throws when the index is out of range.
def cardColor (colorID : Int) : Option Color :=
  if colorID < 0 then none else cardsColor[colorID.toNat]?

end AppStyle

-- What is shown of a diary.
structure DiaryView (δ : Type) where
  color : AppStyle.Color
  diaryTitle : String
  creationDate : String
  diaryContent : δ

-- What is shown of a snippet.
structure SnippetView (δ : Type) where
  image : String
  diaryContent : δ
  createdOn : String

section

variable {δ : Type} (json : JsonCoding δ)

def DiaryView.read (doc : Document) : Option (DiaryView δ) := do
  let color ← AppStyle.cardColor (← doc.int "color_id")
  let diaryTitle ← doc.string "diary_title"
  let creationDate ← doc.string "creation_date"
  let diaryContent ← json.getQuillControllerviaJSON (← doc.string "diary_content")
  return { color, diaryTitle, creationDate, diaryContent }

-- Any value of `card_background` can be made part of the path.
def SnippetView.read (offset : Int) (doc : Document) : Option (SnippetView δ) := do
  let cardBackground ← doc.string "card_background"
  let diaryContent ← json.getQuillControllerviaJSON (← doc.string "diary_content")
  let date := DateTime.toLocal offset (← doc.timestamp "creation_timestamp")
  return {
    image        := "assets/images/" ++ cardBackground ++ ".jpg"
    diaryContent := diaryContent
    createdOn    := "Created on " ++ date.formatWithMonthName
  }

def DiaryCard.build (doc : Document) : Option (DiaryView δ) :=
  DiaryView.read json doc

-- The other cards also look up their poster.
def HomePageDiaryCard.build (doc : Document) : Option (Uid × DiaryView δ) := do
  let posterUid ← doc.string "poster_uid"
  return (posterUid, ← DiaryView.read json doc)

def WordOnlyDisplay.build (offset : Int) (doc : Document) : Option (Uid × SnippetView δ) := do
  let posterUid ← doc.string "poster_uid"
  return (posterUid, ← SnippetView.read json offset doc)

def WordOnlyDisplayProfile.build (offset : Int) (doc : Document) : Option (Uid × SnippetView δ) :=
  WordOnlyDisplay.build json offset doc

end
