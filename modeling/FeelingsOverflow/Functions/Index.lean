import FeelingsOverflow.Firestore.Query
import FeelingsOverflow.Functionality.FirebaseMethods

open Firestore

namespace Functions

structure Payload where
  title : String
  body : String
  postId : String
  deriving DecidableEq, Repr

-- A registration token is a string that is not empty.
def token : Option Value → Option String
  | some (.string t) => if t = "" then none else some t
  | _                => none

-- Sends the payload to each of the tokens, and to none of them when the list is empty or one of its
-- entries is no token.
def sendToDevice (registrationTokens : List (Option Value)) (payload : Payload) :
    Option (List (String × Payload)) :=
  if registrationTokens = [] ∨ ∃ t ∈ registrationTokens, token t = none then none
  else some <| (registrationTokens.filterMap token).map (·, payload)

-- What is sent when the user `userId` has created the post `postId`. It throws where a list of
-- followers is missing, or one of the requests is rejected.
def sendPostNotification (limit : Nat) {users : Users} (collection : Listing users) (userId : Uid)
    (postId : String) : Option (List (String × Payload)) := do
  let some (.array followers) := field users userId "followers" | none
  let payload := {
    title  := "New Post"
    body   := "A new post has been created!"
    postId := postId
  }
  let tokensSnapshot ← collection.whereIn limit "uid" followers
  let tokenList := tokensSnapshot.map (· "fcmToken")
  sendToDevice tokenList payload

end Functions
