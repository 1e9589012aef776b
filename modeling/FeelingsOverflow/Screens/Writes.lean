import FeelingsOverflow.Functionality.Calls
import FeelingsOverflow.Firestore.Schema
import FeelingsOverflow.Screens.EditProfile
import FeelingsOverflow.Screens.ProfileTab

open Firestore FirebaseMethods

namespace ProfileTab

-- The write of a new picture.
def updateProfilePic (uid : Uid) (profilePicURL : String) : Task Uid Unit :=
  Firestore.update uid [("profilepic", .value (.string profilePicURL))]

theorem selectImage_users (url : String → Image → String) (uid : Uid) (o : ImageOutcome) (p : Profile) :
    (selectImage url uid o p).users = match o.picked with
      | none    => p.users
      | some im => (updateProfilePic uid (ImageFunction.getDownloadURL url uid o.located
          (ImageFunction.uploadFile im uid o.uploaded p.storage))).eval perform p.users := by
  rw [selectImage]
  cases o.picked <;> rfl

end ProfileTab

-- All that writes documents of users: a new user signs up, one of the methods that change the social
-- graph is called, or a user changes the details or the picture of the profile.
inductive Write
  | settingNewProfile (userUID : Uid) (username email : String)
  | call (c : Call)
  | changeDetails (uid : Uid) (e : EditProfile.Edit)
  | updateProfilePic (uid : Uid) (profilePicURL : String)

namespace Write

def code : Write → Task Uid Unit
  | settingNewProfile userUID username email =>
    FirebaseMethods.settingNewProfile userUID username email
  | call c                             => c.code
  | changeDetails uid e                => EditProfile.changeDetails uid e
  | updateProfilePic uid profilePicURL => ProfileTab.updateProfilePic uid profilePicURL

-- Any number of writes, none of which has taken a step.
def pool {ι : Type} (writes : ι → Write) (s : Users) : Machine.Pool Users (Task Uid Unit) ι where
  store := s
  threads i := (writes i).code

end Write

-- What the fields of a user's document hold. There are no others.
def ProfileField (uid : Uid) (f : String) (v : Option Value) : Prop :=
  if f = "uid" then v = some (.string uid)
  else if f ∈ ["username", "email", "bio", "profilepic"] then ∃ t, v = some (.string t)
  else if f ∈ ["followers", "following", "requests"] then ∃ xs, v = some (.array xs)
  else v = none

namespace ProfileField

variable {uid : Uid} {f : String} {v : Option Value}

theorem text (hf : f ∈ ["username", "email", "bio", "profilepic"]) :
    ProfileField uid f v ↔ ∃ t, v = some (.string t) := by
  rw [ProfileField, if_neg (by rintro rfl; simp at hf), if_pos hf]

theorem list (hf : f ∈ ["followers", "following", "requests"]) :
    ProfileField uid f v ↔ ∃ xs, v = some (.array xs) := by
  rw [ProfileField, if_neg (by rintro rfl; simp at hf), if_neg (by simp at hf ⊢; grind), if_pos hf]

end ProfileField

abbrev IsProfile : Uid → Document → Prop := Typed ProfileField
