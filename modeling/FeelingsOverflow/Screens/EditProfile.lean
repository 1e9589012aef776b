import FeelingsOverflow.Functionality.FirebaseMethods

open Firestore

namespace EditProfile

-- The texts of the two fields.
structure Edit where
  username : String
  bio : String
  deriving DecidableEq, Repr

-- What `Change Details` does.
def changeDetails (uid : Uid) (e : Edit) : Task Uid Unit := do
  if e.username = "" ∧ e.bio = "" then
    return
  else
    let userSnap ← Firestore.get uid
    let userData ← Async.ofOption userSnap
    let existingUsername ← Async.ofOption (userData.string "username")
    let existingBio ← Async.ofOption (userData.string "bio")
    if existingUsername = e.username ∨ e.username = "" then
      Firestore.update uid [("bio", .value (.string e.bio))]
    else if existingBio = e.bio ∨ e.bio = "" then
      Firestore.update uid [("username", .value (.string e.username))]
    else
      Firestore.update uid [
        ("bio", .value (.string e.bio)),
        ("username", .value (.string e.username))
      ]

-- A submission of which all operations succeed.
def Submits (uid : Uid) (s : Users) (e : Edit) (s' : Users) : Prop :=
  (changeDetails uid e).Completes perform s s'

end EditProfile
