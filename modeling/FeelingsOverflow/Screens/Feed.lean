import FeelingsOverflow.Screens.HomeTab
import FeelingsOverflow.Screens.PostReader

open Firestore FirebaseMethods

namespace HomeTab

-- A document in a user's collection `posts`.
structure Post where
  user : Uid
  id : String
  data : Document

namespace Post

def reference (p : Post) : Uid × String :=
  (p.user, p.id)

-- `p` is as recent as `q`, or more so.
def NotBefore (p q : Post) : Prop :=
  ∃ t u, p.data.timestamp "creation_timestamp" = some t ∧
    q.data.timestamp "creation_timestamp" = some u ∧ u ≤ t

end Post

-- What the query of a user's posts yields: Each of its documents once, the most recent ones first.
structure QuerySnapshot (following : Uid) where
  docs : List Post
  user_eq : ∀ p ∈ docs, p.user = following
  nodup : (docs.map Post.reference).Nodup
  sorted : docs.Pairwise Post.NotBefore

section

variable {followings : List Uid} (latest : (i : Fin followings.length) → QuerySnapshot (followings.get i))

-- The documents of the latest snapshots, one for each of the queries.
def listOfDocumentSnapshot : List Post :=
  (List.ofFn fun i => (latest i).docs).flatten

def isShown (offset now : Int) (p : Post) : Bool :=
  passes offset now p.data == some true

-- The posts that are shown. The filter throws if it throws for any of them.
def feed (offset now : Int) : Option (List Post) :=
  if (listOfDocumentSnapshot latest).all fun p => (passes offset now p.data).isSome then
    some <| (listOfDocumentSnapshot latest).filter (isShown offset now)
  else
    none

theorem filteredList_map_data (offset now : Int) (posts : List Post) :
    filteredList offset now (posts.map Post.data) =
      if posts.all fun p => (passes offset now p.data).isSome then
        some <| (posts.filter (isShown offset now)).map Post.data
      else none := by
  induction posts
  case nil => rfl
  case cons p posts hi =>
    cases hp : passes offset now p.data
    case none => simp [filteredList, hp]
    case some b =>
      cases b <;> simp only [List.map_cons, filteredList, hi, hp, List.all_cons, List.filter_cons, isShown]
      all_goals
        split <;> simp_all

theorem feed_map_data (offset now : Int) : (feed latest offset now).map (·.map Post.data) =
    filteredList offset now ((listOfDocumentSnapshot latest).map Post.data) := by
  rw [filteredList_map_data, feed]
  split <;> rfl

end
end HomeTab
