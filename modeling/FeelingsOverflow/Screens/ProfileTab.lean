import FeelingsOverflow.Screens.OtherUserProfile
import FeelingsOverflow.Screens.Loader
import FeelingsOverflow.Functionality.ImageFunctions

open Firestore

namespace ProfileTab

structure Fields where
  isLoading : Bool
  imageURL : String
  userData : Document
  followers : Nat
  following : Nat
  postLength : Nat

def initial : Fields where
  isLoading  := false
  imageURL   := ""
  userData _ := none
  followers  := 0
  following  := 0
  postLength := 0

-- The assignments once both snapshots are there.
def setData (userSnap : Option Document) (postSnap : Nat) : Loader Fields Unit := do
  Lifecycle.assign fun s => { s with postLength := postSnap }
  let userData ← Async.ofOption userSnap
  Lifecycle.assign fun s => { s with userData }
  let followers ← Async.ofOption (dynamicLength (userData "followers"))
  Lifecycle.assign fun s => { s with followers }
  let following ← Async.ofOption (dynamicLength (userData "following"))
  Lifecycle.assign fun s => { s with following }
  let imageURL ← Async.ofOption (userData.string "profilepic")
  Lifecycle.assign fun s => { s with imageURL }
  Lifecycle.setState fun s => s

def awaitPersonalDiaries (uid : Uid) (userSnap : Option Document) : Loader Fields Unit := do
  let postSnap ← Lifecycle.fetch (Read.personalDiaries uid)
  setData userSnap postSnap

def awaitUser (uid : Uid) : Loader Fields Unit := do
  let userSnap ← Lifecycle.fetch (Read.user uid)
  awaitPersonalDiaries uid userSnap

-- The `try` block with all that follows it. Its `catch` clause shows an alert.
def block (c : Loader Fields Unit) : Loader Fields Unit := do
  c.tryCatch Lifecycle.context
  Lifecycle.setState fun s => { s with isLoading := false }

def getData (uid : Uid) : Loader Fields Unit := do
  Lifecycle.setState fun s => { s with isLoading := true }
  block (awaitUser uid)

-- What the three counters show, given what their streams have sent. A builder that throws shows
-- nothing.
structure Counters where
  followers : Option Nat
  following : Option Nat
  postLength : Option Nat
  deriving DecidableEq, Repr

def counters (data : Option Document) (posts : List Document) : Counters where
  followers  := data.bind fun data => dynamicLength (data "followers")
  following  := data.bind fun data => dynamicLength (data "following")
  postLength := some posts.length

-- What a change of the picture reads and writes.
structure Profile where
  users : Users
  storage : Storage
  fields : Fields

-- Without an image `null` is assigned to `im`, which throws. The user's document is updated with
-- whatever `getDownloadURL` yields.
def selectImage (url : String → Image → String) (uid : Uid) (o : ImageOutcome) (p : Profile) :
    Profile :=
  match o.picked with
  | none => p
  | some im =>
    let storage := ImageFunction.uploadFile im uid o.uploaded p.storage
    let profilePicURL := ImageFunction.getDownloadURL url uid o.located storage
    { users   := (Firestore.update uid [("profilepic", .value (.string profilePicURL))]).eval
        perform p.users
      storage := storage
      fields  := { p.fields with imageURL := profilePicURL, isLoading := false } }

end ProfileTab
