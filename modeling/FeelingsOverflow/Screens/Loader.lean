import FeelingsOverflow.Execution.Lifecycle
import FeelingsOverflow.Functionality.FirebaseMethods

open Firestore

-- What the loaders of the screens read: a user's document, or the number of a user's diaries.
inductive Read
  | user (uid : Uid)
  | personalDiaries (uid : Uid)
  deriving DecidableEq, Repr

abbrev Read.Result : Read → Type
  | user _            => Option Document
  | personalDiaries _ => Nat

-- Reads fail, or are answered.
abbrev Answers := (r : Read) → Option r.Result

abbrev Loader (σ α : Type) := Lifecycle.Loader Read.Result σ α

namespace Loader

variable {σ : Type}

def getUsername (uid : Uid) : Loader σ String := do
  let userSnap ← Lifecycle.fetch (Read.user uid)
  let userData ← Async.ofOption userSnap
  Async.ofOption (userData.string "username")

def getPicUrl (uid : Uid) : Loader σ String := do
  let userSnap ← Lifecycle.fetch (Read.user uid)
  let userData ← Async.ofOption userSnap
  Async.ofOption (userData.string "profilepic")

end Loader
