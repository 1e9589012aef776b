import FeelingsOverflow.Functionality.FirebaseMethods
import FeelingsOverflow.Calendar.DateTime

open Firestore Calendar

namespace FirebaseMethods

-- The post that `currentUser` makes at `now`, on a device whose local time has the given offset. The
-- second reading of the clock is `timestamp`. Without the four fields of the diary it throws.
def postDiary (diary : Document) (_uid currentUser : Uid) (offset now timestamp : Int) :
    Option Document := do
  let diaryTitle ← diary "diary_title"
  let creationDate ← diary "creation_date"
  let diaryContent ← diary "diary_content"
  let colorId ← diary "color_id"
  return .of [
    ("diary_title", diaryTitle),
    ("creation_date", creationDate),
    ("diary_content", diaryContent),
    ("color_id", colorId),
    ("poster_uid", .string currentUser),
    ("post_date", .string (DateTime.toLocal offset now).format),
    ("24hr_expiry", .bool true),
    ("display_type", .string "DIARYCARD"),
    ("creation_timestamp", .timestamp timestamp)
  ]

def postCard (jsonContent : Value) (backgroundImage : String) (currentUser : Uid)
    (offset now timestamp : Int) : Document := .of [
  ("card_background", .string backgroundImage),
  ("diary_content", jsonContent),
  ("display_type", .string "WORDONLYDISPLAY"),
  ("poster_uid", .string currentUser),
  ("post_date", .string (DateTime.toLocal offset now).format),
  ("24hr_expiry", .bool true),
  ("creation_timestamp", .timestamp timestamp)
]

-- The users whose collections of posts are queried for the feed of the user with the given snapshot.
def getPosts (userSnap : Option Document) : Option (List Uid) := do
  let userData ← userSnap
  let some (.array followings) := userData "following" | none
  return followings

-- A post made at `now` by either of the two.
inductive Posted (offset now : Int) : Document → Prop
  | diary : postDiary diary uid currentUser offset now timestamp = some doc → Posted offset now doc
  | card : Posted offset now (postCard jsonContent image currentUser offset now timestamp)

theorem Posted.post_date (h : Posted offset now doc) :
    doc "post_date" = some (.string (DateTime.toLocal offset now).format) := by
  cases h
  case diary hd =>
    simp only [postDiary, Option.bind_eq_bind, Option.bind_eq_some_iff, Option.pure_def,
      Option.some.injEq] at hd
    obtain ⟨_, _, _, _, _, _, _, _, rfl⟩ := hd
    rfl
  case card => rfl

end FirebaseMethods
