import FeelingsOverflow.Design.Cards

open Firestore Calendar

structure PostReaderScreen (δ : Type) where
  posterUid : Uid
  diary : DiaryView δ
  postedOn : String

namespace PostReaderScreen

def postedOnLine (doc : Document) : Option String := do
  let date ← DateTime.parse (← doc.string "post_date")
  return "Posted on " ++ date.normalize.formatToMinute

def build (json : JsonCoding δ) (doc : Document) : Option (PostReaderScreen δ) := do
  let posterUid ← doc.string "poster_uid"
  let diary ← DiaryView.read json doc
  let postedOn ← postedOnLine doc
  return { posterUid, diary, postedOn }

end PostReaderScreen
