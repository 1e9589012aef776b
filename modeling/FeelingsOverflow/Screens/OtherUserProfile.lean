import FeelingsOverflow.Functionality.Calls

open Firestore FirebaseMethods

-- `value.length` and `value.contains(x)` where `value` is `dynamic`: Lists and strings have both,
-- on everything else they throw.
def dynamicLength : Option Value → Option Nat
  | some (.array xs) => some xs.length
  | some (.string s) => some (s.toList.map fun c => if c.val < 0x10000 then 1 else 2).sum
  | _                => none

def dynamicContains (x : String) : Option Value → Option Bool
  | some (.array xs) => some (x ∈ xs)
  | some (.string s) => some (x.toList <:+: s.toList)
  | _                => none

-- The state of a profile page, together with the user who opened it.
@[ext]
structure OtherUserProfile where
  currentUser : Uid
  uid : Uid
  userData : Document
  followers : Int
  following : Int
  postLength : Int
  isFollowing : Bool
  requestSent : Bool

namespace OtherUserProfile

def initial (currentUser uid : Uid) : OtherUserProfile where
  currentUser := currentUser
  uid         := uid
  userData    := fun _ => none
  followers   := 0
  following   := 0
  postLength  := 0
  isFollowing := false
  requestSent := false

-- The snapshots are the user's document and the number of their `personal_diaries`, unless they could
-- not be loaded. What has been assigned when an exception is thrown stays assigned.
def getData (snaps : Option (Option Document × Nat)) (initial : OtherUserProfile) :
    OtherUserProfile := Id.run do
  let mut page := initial
  let some (userSnap, postSnap) := snaps | return page
  page := { page with postLength := postSnap }
  let some userData := userSnap | return page
  page := { page with userData := userData }
  let some followers := dynamicLength (userData "followers") | return page
  page := { page with followers := followers }
  let some following := dynamicLength (userData "following") | return page
  page := { page with following := following }
  if isNull (userData "followers") ∧ isNull (userData "requests") then
    page := { page with isFollowing := false, requestSent := false }
  else if isNull (userData "followers") then
    page := { page with isFollowing := false }
    let some requestSent := dynamicContains page.currentUser (userData "requests") | return page
    page := { page with requestSent := requestSent }
  else if isNull (userData "requests") then
    let some isFollowing := dynamicContains page.currentUser (userData "followers") | return page
    page := { page with isFollowing := isFollowing, requestSent := false }
  else
    let some isFollowing := dynamicContains page.currentUser (userData "followers") | return page
    page := { page with isFollowing := isFollowing }
    let some requestSent := dynamicContains page.currentUser (userData "requests") | return page
    page := { page with requestSent := requestSent }
  return page

inductive Button
  | unfollow | requestSent | follow
  deriving DecidableEq, Repr

-- Building the page throws when one of these is no string.
def builds (page : OtherUserProfile) : Bool :=
  ["profilepic", "username", "bio"].all fun f => page.userData f matches some (.string _)

-- The button which the page shows.
def build (page : OtherUserProfile) : Option Button :=
  if ¬page.builds then none
  else if page.currentUser = page.uid then none
  else if page.isFollowing then some .unfollow
  else if page.requestSent then some .requestSent
  else some .follow

-- The call which a button launches. Without a string `userData['uid']` the first one throws.
def launches (page : OtherUserProfile) : Button → List Call
  | .unfollow =>
    match page.userData "uid" with
    | some (.string uid) => [.followUser page.currentUser uid]
    | _                  => []
  | .requestSent => [.stopFollow page.currentUser page.uid]
  | .follow      => [.requestFollow page.currentUser page.uid]

-- What a button sets at once. `Unfollow` awaits its call before it sets anything.
def press (page : OtherUserProfile) : Button → OtherUserProfile
  | .unfollow    => page
  | .requestSent => { page with requestSent := false }
  | .follow      => { page with requestSent := true }

-- What `Unfollow` sets when its call has returned.
def unfollowed (page : OtherUserProfile) : OtherUserProfile :=
  { page with isFollowing := false, followers := page.followers - 1 }

-- A page stays with the users it was opened for, and shows the data it has loaded.
@[simp]
theorem getData_currentUser (snaps : Option (Option Document × Nat)) (page : OtherUserProfile) :
    (getData snaps page).currentUser = page.currentUser := by
  simp only [getData, Id.run]
  repeat' split
  all_goals rfl

@[simp]
theorem getData_uid (snaps : Option (Option Document × Nat)) (page : OtherUserProfile) :
    (getData snaps page).uid = page.uid := by
  simp only [getData, Id.run]
  repeat' split
  all_goals rfl

theorem getData_userData (snaps : Option (Option Document × Nat)) (page : OtherUserProfile) :
    (getData snaps page).userData = page.userData ∨
      snaps.bind Prod.fst = some (getData snaps page).userData := by
  simp only [getData, Id.run]
  repeat' split
  all_goals first | exact .inl rfl | exact .inr rfl

theorem getData_isFollowing {snaps : Option (Option Document × Nat)} {page : OtherUserProfile}
    (h : (getData snaps page).isFollowing) : page.isFollowing ∨ ∃ d n,
      snaps = some (some d, n) ∧ dynamicContains page.currentUser (d "followers") = some true := by
  simp only [getData, Id.run] at h
  repeat' split at h
  all_goals simp_all [pure]

variable {page : OtherUserProfile} {b : Button}

@[simp]
theorem press_currentUser : (page.press b).currentUser = page.currentUser := by
  cases b <;> rfl

@[simp]
theorem press_uid : (page.press b).uid = page.uid := by
  cases b <;> rfl

@[simp]
theorem press_userData : (page.press b).userData = page.userData := by
  cases b <;> rfl

-- No button is shown to the user whose page it is.
theorem ne_of_build (h : page.build = some b) : page.currentUser ≠ page.uid := by
  rintro he
  simp [build, he] at h

theorem build_unfollow (h : page.build = some .unfollow) : page.isFollowing := by
  simp only [build] at h
  grind

-- A call launched by a button is one of the page's user, about the user whose data it shows.
theorem mem_launches (h : c ∈ page.launches b) : ∃ uid,
    c.pair = (page.currentUser, uid) ∧ (uid = page.uid ∨ page.userData "uid" = some (.string uid)) := by
  cases b
  case unfollow =>
    simp only [launches] at h
    split at h
    case h_1 uid hu =>
      obtain rfl := List.mem_singleton.mp h
      exact ⟨uid, rfl, .inr hu⟩
    case h_2 => simp at h
  all_goals
    obtain rfl := List.mem_singleton.mp h
    exact ⟨page.uid, rfl, .inl rfl⟩

end OtherUserProfile
