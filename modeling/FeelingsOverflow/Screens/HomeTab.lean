import FeelingsOverflow.Functionality.Posts
import FeelingsOverflow.Screens.Loader

open Firestore Calendar

namespace HomeTab

-- The stream is given by the users whose posts it combines. It is set late.
structure Fields where
  isLoading : Bool
  stream : Option (List Uid)

def initial : Fields where
  isLoading := false
  stream    := none

def awaitPosts (uid : Uid) : Loader Fields Unit := do
  let userSnap ← Lifecycle.fetch (Read.user uid)
  let stream ← Async.ofOption (FirebaseMethods.getPosts userSnap)
  Lifecycle.assign fun s => { s with stream := some stream }
  Lifecycle.setState fun s => { s with isLoading := false }

def getData (uid : Uid) : Loader Fields Unit := do
  Lifecycle.setState fun s => { s with isLoading := true }
  awaitPosts uid

-- Whether a post passes the filter of the feed, on a device whose local time has the given offset. It
-- throws when there is no date, or one that cannot be parsed.
def passes (offset now : Int) (doc : Document) : Option Bool := do
  let some (.string postDate) := doc "post_date" | none
  let date ← DateTime.parse postDate
  let inMinutes := (date.instant offset - now).tdiv (60 * 1000000)
  return inMinutes.natAbs < 60 * 24

def filteredList (offset now : Int) : List Document → Option (List Document)
  | [] => some []
  | doc :: docs => do
    let isShown ← passes offset now doc
    let filtered ← filteredList offset now docs
    return if isShown then doc :: filtered else filtered

end HomeTab
