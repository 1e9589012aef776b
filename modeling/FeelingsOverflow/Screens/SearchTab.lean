import FeelingsOverflow.Functionality.Calls

open Firestore FirebaseMethods

-- The state of the list of follow requests, together with the user who opened it.
@[ext]
structure SearchTab where
  currentUserUid : Uid
  requestsUid : List Uid
  deriving DecidableEq, Repr

namespace SearchTab

-- The snapshot is the user's own document, unless it could not be loaded.
def getRequests (snap : Option (Option Document)) (currentUserUid : Uid) : SearchTab where
  currentUserUid := currentUserUid
  requestsUid    :=
    match snap with
    | some (some userData) =>
      match userData "requests" with
      | some (.array requests) => requests
      | _                      => []
    | _ => []

-- The calls which the two buttons next to a request launch. None of them is awaited.
def accept (tab : SearchTab) (uid : Uid) : List Call :=
  [.followUser uid tab.currentUserUid, .stopFollow uid tab.currentUserUid]

def reject (tab : SearchTab) (uid : Uid) : List Call :=
  [.stopFollow uid tab.currentUserUid]

-- Either button removes the request from the list.
def remove (tab : SearchTab) (uid : Uid) : SearchTab :=
  { tab with requestsUid := tab.requestsUid.erase uid }

@[simp]
theorem remove_currentUserUid (tab : SearchTab) (uid : Uid) :
    (tab.remove uid).currentUserUid = tab.currentUserUid :=
  rfl

theorem mem_of_mem_remove {tab : SearchTab} (h : u ∈ (tab.remove uid).requestsUid) :
    u ∈ tab.requestsUid :=
  List.mem_of_mem_erase h

end SearchTab
