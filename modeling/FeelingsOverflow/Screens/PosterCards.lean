import FeelingsOverflow.Screens.Loader
import FeelingsOverflow.Execution.Reconcile

open Firestore

-- The part of the cards' states that is about the user who posted.
namespace PosterCard

structure Fields where
  isLoading : Bool
  picUrl : String
  posterName : String
  deriving DecidableEq, Repr

def initial : Fields where
  isLoading  := false
  picUrl     := ""
  posterName := ""

def setPoster (userSnap : Option Document) : Loader Fields Unit := do
  let userData ← Async.ofOption userSnap
  let picUrl ← Async.ofOption (userData.string "profilepic")
  Lifecycle.assign fun s => { s with picUrl }
  let posterName ← Async.ofOption (userData.string "username")
  Lifecycle.assign fun s => { s with posterName }
  Lifecycle.setState fun s => { s with isLoading := false }

def awaitPoster (posterUid : Uid) : Loader Fields Unit := do
  let userSnap ← Lifecycle.fetch (Read.user posterUid)
  setPoster userSnap

def getData (doc : Document) : Loader Fields Unit := do
  Lifecycle.setState fun s => { s with isLoading := true }
  let posterUid ← Async.ofOption (doc.string "poster_uid")
  awaitPoster posterUid

-- What is read of a user's document.
def profile (userSnap : Option Document) : Option (String × String) := do
  let userData ← userSnap
  return (← userData.string "profilepic", ← userData.string "username")

-- The picture and the name, which take the place of a loading icon.
def build (s : Fields) : Option (String × String) :=
  if s.isLoading then none else some (s.picUrl, s.posterName)

end PosterCard

namespace HomePageDiaryCard

def getData (doc : Document) : Loader PosterCard.Fields Unit :=
  PosterCard.getData doc

end HomePageDiaryCard

namespace WordOnlyDisplay

def getData (doc : Document) : Loader PosterCard.Fields Unit :=
  PosterCard.getData doc

end WordOnlyDisplay

namespace PostReaderScreen

def getData (doc : Document) : Loader PosterCard.Fields Unit :=
  PosterCard.getData doc

end PostReaderScreen

namespace HomeTab

inductive CardType
  | wordOnlyDisplay | homePageDiaryCard
  deriving DecidableEq, Repr

-- The card that the feed chooses for a post.
def cardType (diary : Document) : CardType :=
  if diary "display_type" = some (.string "WORDONLYDISPLAY") then .wordOnlyDisplay
  else .homePageDiaryCard

def cardData (diary : Document) : Loader PosterCard.Fields Unit :=
  match cardType diary with
  | .wordOnlyDisplay   => WordOnlyDisplay.getData diary
  | .homePageDiaryCard => HomePageDiaryCard.getData diary

-- A user's document, when the read of it does not fail.
def userAnswer (users : Users) (ok : Bool) : Answers
  | .user uid => if ok then some (users uid) else none
  | _         => none

-- The cards of the feed, each of which awaits one read.
def cardComponent (users : Users) :
    Reconcile.Component Document CardType (Lifecycle.Widget Read.Result PosterCard.Fields) Bool where
  type          := cardType
  createState d := .create PosterCard.initial (cardData d)
  step w ok     := w.resume 0 (userAnswer users ok)

abbrev FeedEvent := Reconcile.Event Document Bool
abbrev Cards := Reconcile.Children Document (Lifecycle.Widget Read.Result PosterCard.Fields)

end HomeTab
