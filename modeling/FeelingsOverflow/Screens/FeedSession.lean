import FeelingsOverflow.Screens.Feed
import FeelingsOverflow.Screens.Journal

open Firestore

namespace HomeTab

-- The post is stored, and a query that orders posts by their timestamps yields it.
def Listed (posts : Uid → Collection DocId) (p : Post) : Prop :=
  posts p.user p.id = some p.data ∧ (p.data "creation_timestamp").isSome

-- The snapshot tells all posts that are stored.
def QuerySnapshot.Of {following : Uid} (posts : Uid → Collection DocId) (q : QuerySnapshot following) :
    Prop :=
  ∀ p, p ∈ q.docs ↔ p.user = following ∧ Listed posts p

variable {followings : List Uid}

-- What the builder is told about the stream: nothing yet, the values of its last event, or that there
-- are none, since the last event was an error or there was no event at all before the stream ended.
inductive AsyncSnapshot (followings : List Uid)
  | waiting
  | withData (latest : (i : Fin followings.length) → QuerySnapshot (followings.get i))
  | withoutData

inductive Body
  | spinner
  | noPosts
  | grid (filteredList : List Post)

def Body.posts : Body → List Post
  | grid filteredList => filteredList
  | _                 => []

-- What the builder shows at `now`, unless it throws.
def builder (offset now : Int) : AsyncSnapshot followings → Option Body
  | .waiting         => some .spinner
  | .withData latest => do
    let filteredList ← feed latest offset now
    return if filteredList.isEmpty then .noPosts else .grid filteredList
  | .withoutData     => some .noPosts

-- The combined stream emits once each of the streams has, and then whenever one of them does.
def combineLatest (latest : (i : Fin followings.length) → Option (QuerySnapshot (followings.get i))) :
    Option ((i : Fin followings.length) → QuerySnapshot (followings.get i)) :=
  if h : ∀ i, (latest i).isSome then some fun i => (latest i).get (h i) else none

-- The feed of a user who has loaded the list of the followed users, together with all users' posts.
-- Snapshots of the queries are on their way until their streams emit them.
structure Session (followings : List Uid) where
  journal : Journal
  inFlight : (i : Fin followings.length) → List (QuerySnapshot (followings.get i))
  isListening : Fin followings.length → Bool
  latest : (i : Fin followings.length) → Option (QuerySnapshot (followings.get i))
  snapshot : AsyncSnapshot followings

inductive SessionEvent (δ : Type) (followings : List Uid)
  | journal (e : JournalEvent δ)
  | answer (i : Fin followings.length)
  | deliver (i : Fin followings.length)
  | fail (i : Fin followings.length)
  | done

namespace Session

def loaded (followings : List Uid) (journal : Journal) : Session followings where
  journal       := journal
  inFlight _    := []
  isListening _ := true
  latest _      := none
  snapshot      := .waiting

-- The posts on the screen, when it is built at `now`.
def shown (s : Session followings) (offset now : Int) : List Post :=
  (builder offset now s.snapshot).elim [] Body.posts

-- One of the streams emits.
def onData (s : Session followings) (i : Fin followings.length) (q : QuerySnapshot (followings.get i)) :
    Session followings :=
  let latest := Function.update s.latest i (some q)
  { s with
    latest   := latest
    snapshot := (combineLatest latest).elim s.snapshot .withData }

-- Errors are passed on. They end the stream of the query.
def onError (s : Session followings) (i : Fin followings.length) : Session followings :=
  { s with
    isListening := Function.update s.isListening i false
    snapshot    := .withoutData }

-- A query is answered with what is stored at that moment, as often as it takes. Without any streams the
-- combined one is done at once.
inductive Step {δ : Type} (json : JsonCoding δ) :
    Session followings → SessionEvent δ followings → Session followings → Prop
  | journal : s.journal.step json e = some j → Step json s (.journal e) { s with journal := j }
  | answer {s : Session followings} {i : Fin followings.length}
    {q : QuerySnapshot (followings.get i)} : s.isListening i → q.Of s.journal.posts →
    Step json s (.answer i) { s with inFlight := Function.update s.inFlight i (s.inFlight i ++ [q]) }
  | deliver {s : Session followings} {i : Fin followings.length}
    {q : QuerySnapshot (followings.get i)} {qs : List _} : s.inFlight i = q :: qs →
    Step json s (.deliver i) (onData { s with inFlight := Function.update s.inFlight i qs } i q)
  | fail {s : Session followings} {i : Fin followings.length} : s.isListening i → s.inFlight i = [] →
    Step json s (.fail i) (s.onError i)
  | done : followings = [] → Step json s .done { s with snapshot := .withoutData }

end Session
end HomeTab
