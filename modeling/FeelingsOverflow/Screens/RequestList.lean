import FeelingsOverflow.Screens.SearchTab

open Firestore

-- The list of follow requests with all that is shown of them. The names and the pictures are kept in
-- lists of their own.
structure RequestList extends SearchTab where
  requestsName : List String
  requestsPicUrl : List String
  deriving DecidableEq, Repr

namespace RequestList

-- A user's document, unless it could not be loaded.
abbrev Snap := Option (Option Document)

-- Both throw where there is no document, or no such text in it.
def getUsername (snap : Snap) : Option String := do
  let userData ← (← snap)
  userData.string "username"

def getPicUrl (snap : Snap) : Option String := do
  let userData ← (← snap)
  userData.string "profilepic"

-- The loop over the requests, given the two snapshots that it gets for each of them. What is
-- fetched before it throws is kept.
def fetch : List (Snap × Snap) → List String × List String
  | [] => ([], [])
  | (nameSnap, picSnap) :: snaps =>
    match getUsername nameSnap, getPicUrl picSnap with
    | some name, some picUrl => (name :: (fetch snaps).1, picUrl :: (fetch snaps).2)
    | some name, none        => ([name], [])
    | none, _                => ([], [])

def getRequests (snap : Snap) (currentUserUid : Uid) (snaps : Uid → Snap × Snap) : RequestList :=
  let tab := SearchTab.getRequests snap currentUserUid
  { tab with
    requestsName   := (fetch <| tab.requestsUid.map snaps).1
    requestsPicUrl := (fetch <| tab.requestsUid.map snaps).2 }

-- What a row shows, and whom its buttons act on.
structure Row where
  uid : Uid
  name : String
  picUrl : String
  deriving DecidableEq, Repr

-- A row cannot be built when an index is out of range.
def row (l : RequestList) (uid : Uid) : Option Row := do
  let name ← l.requestsName[l.requestsUid.idxOf uid]?
  let picUrl ← l.requestsPicUrl[l.requestsUid.idxOf uid]?
  return { uid, name, picUrl }

def build (l : RequestList) : List (Option Row) :=
  l.requestsUid.map l.row

inductive Tap
  | accept (uid : Uid)
  | reject (uid : Uid)
  deriving DecidableEq, Repr

def Tap.uid : Tap → Uid
  | accept uid | reject uid => uid

-- A tap on a button of one of the rows. Both buttons remove the request, but not its name and
-- picture.
def tap (l : RequestList) (t : Tap) : Option RequestList :=
  if t.uid ∈ l.requestsUid then some { l with toSearchTab := l.remove t.uid } else none

-- The name and the picture that were fetched for each of the users.
structure Fetched where
  name : Uid → String
  picUrl : Uid → String

def Fetched.look (f : Fetched) (uid : Uid) : String × String :=
  (f.name uid, f.picUrl uid)

-- The list once everything is fetched.
def loaded (f : Fetched) (currentUserUid : Uid) (uids : List Uid) : RequestList where
  currentUserUid := currentUserUid
  requestsUid    := uids
  requestsName   := uids.map f.name
  requestsPicUrl := uids.map f.picUrl

theorem fetch_of_texts (f : Fetched) {snaps : Uid → Snap × Snap} {uids : List Uid}
    (h : ∀ uid ∈ uids, getUsername (snaps uid).1 = some (f.name uid) ∧
      getPicUrl (snaps uid).2 = some (f.picUrl uid)) :
    fetch (uids.map snaps) = (uids.map f.name, uids.map f.picUrl) := by
  induction uids
  case nil => rfl
  case cons uid uids hi =>
    have ⟨hn, hp⟩ := h uid (by simp)
    simp only [List.map_cons, fetch, hn, hp, hi fun uid hu => h uid (by simp [hu])]

theorem getRequests_of_texts (f : Fetched) {snaps : Uid → Snap × Snap} {userData : Document}
    (hr : userData "requests" = some (.array uids))
    (h : ∀ uid ∈ uids, getUsername (snaps uid).1 = some (f.name uid) ∧
      getPicUrl (snaps uid).2 = some (f.picUrl uid)) (currentUserUid : Uid) :
    getRequests (some (some userData)) currentUserUid snaps = loaded f currentUserUid uids := by
  simp only [getRequests, SearchTab.getRequests, hr, fetch_of_texts f h, loaded]

end RequestList
