import FeelingsOverflow.Firestore.Document

open Firestore

-- Users are identified by their UID, under which their document is stored in `users`.
abbrev Uid := String
abbrev Users := Collection Uid

namespace FirebaseMethods

-- `data[f] == null`: reading an absent field yields `null`, too.
def isNull (v : Option Value) : Bool :=
  v = none ∨ v = some .null

-- `List xs = data[f]` throws for anything but a list.
def asList : Option Value → Task Uid (List String)
  | some (.array xs) => .done xs
  | _                => .throw

-- The data of a new user.
def newProfile (userUID : Uid) (username email : String) : Document := .of [
  ("username", .string username),
  ("uid", .string userUID),
  ("email", .string email),
  ("bio", .string ""),
  ("followers", .array []),
  ("following", .array []),
  ("requests", .array []),
  ("profilepic", .string "https://www.personality-insights.com/wp-content/uploads/2017/12/default-profile-pic-e1513291410505.jpg")
]

def settingNewProfile (userUID : Uid) (username email : String) : Task Uid Unit :=
  Firestore.set userUID (newProfile userUID username email)

-- A store in which every profile is as `settingNewProfile` made it.
def Fresh (s : Users) : Prop :=
  ∀ uid d, s uid = some d → ∃ username email, d = newProfile uid username email

theorem fresh_empty : Fresh fun _ => none := by
  simp [Fresh]

theorem fresh_settingNewProfile (h : Fresh s) (userUID : Uid) (username email : String) :
    Fresh ((settingNewProfile userUID username email).eval perform s) := by
  intro uid d hd
  simp only [settingNewProfile, Firestore.set, Async.perform, Async.eval, Async.outcome,
    perform] at hd
  by_cases hu : uid = userUID
  case pos => exact ⟨username, email, by simpa [hu] using hd.symm⟩
  case neg => exact h uid d (by simpa [hu] using hd)

def registered (uids : List Uid) : Users := fun uid =>
  if uid ∈ uids then some (newProfile uid uid uid) else none

theorem fresh_registered (uids : List Uid) : Fresh (registered uids) := by
  intro uid d hd
  simp only [registered, Option.ite_none_right_eq_some, Option.some.injEq] at hd
  exact ⟨uid, uid, hd.right.symm⟩

theorem Fresh.elements_eq (h : Fresh s) (u : Uid) (hf : f ∈ ["followers", "following", "requests"]) :
    elements s u f = [] := by
  cases hd : s u
  case none => simp [elements, field, hd, coercedArray]
  case some d =>
    obtain ⟨_, _, rfl⟩ := h u d hd
    simp only [List.mem_cons, List.not_mem_nil, or_false] at hf
    rcases hf with rfl | rfl | rfl <;>
      simp [elements, field, hd, newProfile, Document.of, List.lookup]

def requestFollow (uid targetUid : Uid) : Task Uid Unit :=
  Async.tryCatch (do
    let snap ← Firestore.get targetUid
    let data ← Async.ofOption snap
    if isNull (data "requests") then
      -- The field written here is `request`, not `requests`.
      Firestore.update targetUid [("request", .value (.array [uid]))]
    else
      let requests ← asList (data "requests")
      if uid ∉ requests then
        Firestore.update targetUid [("requests", .arrayUnion [uid])])
    (.done ())

def stopFollow (uid targetUid : Uid) : Task Uid Unit :=
  Async.tryCatch (do
    let snap ← Firestore.get targetUid
    let data ← Async.ofOption snap
    if isNull (data "requests") then
      return
    else
      let requests ← asList (data "requests")
      if uid ∈ requests then
        Firestore.update targetUid [("requests", .arrayRemove [uid])])
    (.done ())

def followUser (uid followId : Uid) : Task Uid Unit :=
  Async.tryCatch (do
    let snap ← Firestore.get uid
    let data ← Async.ofOption snap
    let following ← asList (data "following")
    if followId ∈ following then
      Firestore.update followId [("followers", .arrayRemove [uid])]
      Firestore.update uid [("following", .arrayRemove [followId])]
    else
      Firestore.update followId [("followers", .arrayUnion [uid])]
      Firestore.update uid [("following", .arrayUnion [followId])])
    (.done ())

end FirebaseMethods
