import FeelingsOverflow.Screens.HomeTab
import FeelingsOverflow.Screens.PostReader

open Firestore Calendar

variable {δ : Type} (json : JsonCoding δ)

namespace DiaryCreatorScreen

-- The diary that is saved. Its color and both of its dates are chosen when the screen is opened.
def diary (title : String) (delta : δ) (colorID : Nat) (offset now currentTimestamp : Int) :
    Document := .of [
  ("diary_title", .string title),
  ("creation_date", .string (DateTime.toLocal offset now).formatToMinute),
  ("diary_content", .string (json.jsonEncode delta)),
  ("color_id", .int colorID),
  ("creation_timestamp", .timestamp currentTimestamp),
  ("last_updated_timestamp", .timestamp currentTimestamp)
]

end DiaryCreatorScreen

namespace DiaryEditorScreen

def build (doc : Document) : Option (DiaryView δ) :=
  DiaryView.read json doc

def changes (delta : δ) (now : Int) : List (String × FieldValue) := [
  ("diary_content", .value (.string (json.jsonEncode delta))),
  ("last_updated_timestamp", .value (.timestamp now))
]

end DiaryEditorScreen

namespace DiaryPostingScreen

def build (doc : Document) : Option (DiaryView δ) :=
  DiaryView.read json doc

end DiaryPostingScreen

-- The card that is chosen for a post, with what it shows.
inductive PostCard (δ : Type)
  | wordOnlyDisplay (posterUid : Uid) (snippet : SnippetView δ)
  | homePageDiaryCard (posterUid : Uid) (diary : DiaryView δ)
  | diaryCard (diary : DiaryView δ)

-- Diary cards open the post in the reader.
def PostCard.opensReader : PostCard δ → Bool
  | wordOnlyDisplay .. => false
  | _                  => true

namespace HomeTab

def buildPost (offset : Int) (doc : Document) : Option (PostCard δ) := do
  if (← doc "display_type") = .string "WORDONLYDISPLAY" then
    let (posterUid, snippet) ← WordOnlyDisplay.build json offset doc
    return .wordOnlyDisplay posterUid snippet
  else
    let (posterUid, diary) ← HomePageDiaryCard.build json doc
    return .homePageDiaryCard posterUid diary

end HomeTab

namespace ProfileTab

def buildPost (offset : Int) (doc : Document) : Option (PostCard δ) := do
  if (← doc "display_type") = .string "WORDONLYDISPLAY" then
    let (posterUid, snippet) ← WordOnlyDisplayProfile.build json offset doc
    return .wordOnlyDisplay posterUid snippet
  else
    let diary ← DiaryCard.build json doc
    return .diaryCard diary

end ProfileTab

abbrev DocId := String

-- A diary as it was when a screen was opened for it.
structure DiarySnapshot where
  uid : Uid
  id : DocId
  data : Document

-- The collections `personal_diaries` and `posts` of all users, and the snapshots that screens hold.
structure Journal where
  personalDiaries : Uid → Collection DocId
  posts : Uid → Collection DocId
  opened : List DiarySnapshot

inductive JournalEvent (δ : Type)
  | createDiary (uid : Uid) (id : DocId) (title : String) (delta : δ) (colorID : Nat)
      (offset now currentTimestamp : Int)
  | openDiary (uid : Uid) (id : DocId)
  | editDiary (i : Nat) (delta : δ) (now : Int)
  | deleteDiary (i : Nat)
  | postDiary (i : Nat) (id : DocId) (offset now timestamp : Int)
  | postCard (uid : Uid) (id : DocId) (delta : δ) (backgroundImage : String)
      (offset now timestamp : Int)

namespace Journal

def empty : Journal where
  personalDiaries _ _ := none
  posts _ _           := none
  opened              := []

-- `add` creates a document under an ID which is not in use.
def add (c : Uid → Collection DocId) (uid : Uid) (id : DocId) (doc : Document) :
    Option (Uid → Collection DocId) :=
  if (c uid id).isNone then
    some <| Function.update c uid <| Function.update (c uid) id (some doc)
  else
    none

def step (j : Journal) : JournalEvent δ → Option Journal
  | .createDiary uid id title delta colorID offset now currentTimestamp => do
    if colorID < AppStyle.cardsColor.length then
      let doc := DiaryCreatorScreen.diary json title delta colorID offset now currentTimestamp
      let personalDiaries ← add j.personalDiaries uid id doc
      return { j with personalDiaries }
    else
      none
  | .openDiary uid id => do
    let data ← j.personalDiaries uid id
    return { j with opened := j.opened ++ [{ uid, id, data }] }
  | .editDiary i delta now => do
    let diary ← j.opened[i]?
    let (_, diaries) ← perform (.update diary.id (DiaryEditorScreen.changes json delta now))
      (j.personalDiaries diary.uid)
    return { j with personalDiaries := Function.update j.personalDiaries diary.uid diaries }
  | .deleteDiary i => do
    let diary ← j.opened[i]?
    let diaries := Function.update (j.personalDiaries diary.uid) diary.id none
    return { j with personalDiaries := Function.update j.personalDiaries diary.uid diaries }
  | .postDiary i id offset now timestamp => do
    let diary ← j.opened[i]?
    let doc ← FirebaseMethods.postDiary diary.data diary.uid diary.uid offset now timestamp
    let posts ← add j.posts diary.uid id doc
    return { j with posts }
  | .postCard uid id delta backgroundImage offset now timestamp => do
    let content := .string (json.jsonEncode delta)
    let doc := FirebaseMethods.postCard content backgroundImage uid offset now timestamp
    let posts ← add j.posts uid id doc
    return { j with posts }

end Journal
