import FeelingsOverflow.Screens.RequestList

open Firestore

-- A list of users. Their names and pictures are kept in lists of their own.
structure UserList where
  uids : List Uid
  names : List String
  picUrls : List String
  deriving DecidableEq, Repr

namespace UserList

-- The users are those in the field `f` of the user's own document. What is fetched before something
-- throws is kept.
def load (f : String) (snap : RequestList.Snap) (snaps : Uid → RequestList.Snap × RequestList.Snap) :
    UserList :=
  match snap with
  | some (some userData) =>
    match userData f with
    | some (.array uids) => {
        uids
        names   := (RequestList.fetch <| uids.map snaps).1
        picUrls := (RequestList.fetch <| uids.map snaps).2
      }
    | _ => ⟨[], [], []⟩
  | _ => ⟨[], [], []⟩

-- What a row shows, and whose profile it opens.
structure Row where
  uid : Uid
  name : String
  picUrl : String
  deriving DecidableEq, Repr

-- A row cannot be built when an index is out of range.
def row (l : UserList) (uid : Uid) : Option Row := do
  let name ← l.names[l.uids.idxOf uid]?
  let picUrl ← l.picUrls[l.uids.idxOf uid]?
  return { uid, name, picUrl }

def build (l : UserList) : List (Option Row) :=
  l.uids.map l.row

end UserList

def FollowerScreen.getFollowers (snap : RequestList.Snap)
    (snaps : Uid → RequestList.Snap × RequestList.Snap) : UserList :=
  .load "followers" snap snaps

def FollowingScreen.getFollowing (snap : RequestList.Snap)
    (snaps : Uid → RequestList.Snap × RequestList.Snap) : UserList :=
  .load "following" snap snaps
