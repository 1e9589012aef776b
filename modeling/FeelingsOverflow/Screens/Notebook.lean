import FeelingsOverflow.Screens.Journal
import FeelingsOverflow.Calendar.Order

open Firestore Calendar

-- The journal without documents, fields and JSON: What users write is what others get to see.

-- What is shared, and when and where this happens. The second reading of the clock is `timestamp`.
inductive Shared (δ : Type)
  | diary (diary : DiaryView δ)
  | snippet (content : δ) (backgroundImage : String)

structure Publication (δ : Type) where
  shared : Shared δ
  offset : Int
  now : Int
  timestamp : Int

namespace Publication

variable {δ : Type} (p : Publication δ) (uid : Uid)

def snippetView (viewer : Int) (content : δ) (backgroundImage : String) : SnippetView δ where
  image        := "assets/images/" ++ backgroundImage ++ ".jpg"
  diaryContent := content
  createdOn    := "Created on " ++ (DateTime.toLocal viewer p.timestamp).formatWithMonthName

-- The card in the feed, and the one on one's own profile.
def homeCard (viewer : Int) : PostCard δ :=
  match p.shared with
  | .diary diary           => .homePageDiaryCard uid diary
  | .snippet content image => .wordOnlyDisplay uid (p.snippetView viewer content image)

def profileCard (viewer : Int) : PostCard δ :=
  match p.shared with
  | .diary diary           => .diaryCard diary
  | .snippet content image => .wordOnlyDisplay uid (p.snippetView viewer content image)

-- The reader that is opened by a diary's card.
def reader (diary : DiaryView δ) : PostReaderScreen δ where
  posterUid := uid
  diary     := diary
  postedOn  := "Posted on " ++ (DateTime.toLocal p.offset p.now).written.normalize.formatToMinute

end Publication

structure OpenedDiary (δ : Type) where
  uid : Uid
  id : DocId
  diary : DiaryView δ

structure Notebook (δ : Type) where
  diaries : Uid → DocId → Option (DiaryView δ)
  posts : Uid → DocId → Option (Publication δ)
  opened : List (OpenedDiary δ)

namespace Notebook

variable {δ : Type}

def empty : Notebook δ where
  diaries _ _ := none
  posts _ _   := none
  opened      := []

def put {α : Type} (t : Uid → DocId → Option α) (uid : Uid) (id : DocId) (a : Option α) :
    Uid → DocId → Option α :=
  Function.update t uid <| Function.update (t uid) id a

def add {α : Type} (t : Uid → DocId → Option α) (uid : Uid) (id : DocId) (a : α) :
    Option (Uid → DocId → Option α) :=
  if (t uid id).isNone then some (put t uid id a) else none

def step (n : Notebook δ) : JournalEvent δ → Option (Notebook δ)
  | .createDiary uid id title delta colorID offset now _ => do
    let color ← AppStyle.cardsColor[colorID]?
    let diaries ← add n.diaries uid id {
      color        := color
      diaryTitle   := title
      creationDate := (DateTime.toLocal offset now).formatToMinute
      diaryContent := delta
    }
    return { n with diaries }
  | .openDiary uid id => do
    let diary ← n.diaries uid id
    return { n with opened := n.opened ++ [{ uid, id, diary }] }
  | .editDiary i delta _ => do
    let o ← n.opened[i]?
    let diary ← n.diaries o.uid o.id
    return { n with diaries := put n.diaries o.uid o.id <| some { diary with diaryContent := delta } }
  | .deleteDiary i => do
    let o ← n.opened[i]?
    return { n with diaries := put n.diaries o.uid o.id none }
  | .postDiary i id offset now timestamp => do
    let o ← n.opened[i]?
    let posts ← add n.posts o.uid id { shared := .diary o.diary, offset, now, timestamp }
    return { n with posts }
  | .postCard uid id delta backgroundImage offset now timestamp => do
    let posts ← add n.posts uid id {
      shared := .snippet delta backgroundImage
      offset, now, timestamp
    }
    return { n with posts }

end Notebook
