import FeelingsOverflow.Screens.UserList

open Firestore RequestList

namespace UserList

variable {snaps : Uid → Snap × Snap} {uids : List Uid} {userData : Document}

-- The list has a row for each of the users, which shows what was fetched for the user whose profile
-- it opens.
structure Rendered (uids : List Uid) (snaps : Uid → Snap × Snap) (l : UserList) : Prop where
  uids  : l.uids = uids
  shown : ∀ uid ∈ l.uids, ∃ row, l.row uid = some row ∧ row.uid = uid ∧
    getUsername (snaps uid).1 = some row.name ∧ getPicUrl (snaps uid).2 = some row.picUrl

-- The lookups of the name and the picture of every user succeed.
def Fetchable (snaps : Uid → Snap × Snap) (uids : List Uid) : Prop :=
  ∀ uid ∈ uids, (getUsername (snaps uid).1).isSome ∧ (getPicUrl (snaps uid).2).isSome

instance : Decidable (Fetchable snaps uids) :=
  inferInstanceAs (Decidable (∀ uid ∈ uids, _))

-- The loop fetches a picture for each user only if nothing fails.
theorem fetchable_of_length (h : uids.length ≤ (fetch <| uids.map snaps).2.length) :
    Fetchable snaps uids := by
  induction uids
  case nil => simp [Fetchable]
  case cons uid uids hi =>
    rw [List.map_cons, fetch] at h
    split at h
    case h_1 hn hp =>
      have hs : (getUsername (snaps uid).1).isSome ∧ (getPicUrl (snaps uid).2).isSome := by
        simp [hn, hp]
      exact List.forall_mem_cons.mpr ⟨hs, hi <| by simpa using h⟩
    all_goals simp at h

-- Without duplicates a row takes its name and its picture from its own index.
theorem row_isSome_iff {l : UserList} (hd : l.uids.Nodup) (i : Nat) (hi : i < l.uids.length) :
    (l.row l.uids[i]).isSome ↔ i < l.names.length ∧ i < l.picUrls.length := by
  rw [row, hd.idxOf_getElem]
  by_cases hn : i < l.names.length
  case pos => by_cases hp : i < l.picUrls.length <;> simp [hn, hp]
  case neg => simp [hn]

-- One failed lookup is enough for an index error.
theorem fetchable_of_rows (hd : uids.Nodup) (names : List String)
    (h : ∀ uid ∈ uids, (row ⟨uids, names, (fetch <| uids.map snaps).2⟩ uid).isSome) :
    Fetchable snaps uids := by
  apply fetchable_of_length
  by_contra hl
  have hi := Nat.not_le.mp hl
  have hr := row_isSome_iff (l := ⟨uids, names, (fetch <| uids.map snaps).2⟩) hd _ hi
  exact Nat.lt_irrefl _ (hr.mp <| h _ <| List.getElem_mem hi).right

theorem rendered_of_fetchable (h : Fetchable snaps uids) :
    Rendered uids snaps ⟨uids, (fetch <| uids.map snaps).1, (fetch <| uids.map snaps).2⟩ := by
  let f : Fetched := {
    name uid   := (getUsername (snaps uid).1).getD ""
    picUrl uid := (getPicUrl (snaps uid).2).getD ""
  }
  have hf (uid) (hu : uid ∈ uids) : getUsername (snaps uid).1 = some (f.name uid) ∧
      getPicUrl (snaps uid).2 = some (f.picUrl uid) := by
    have ⟨hn, hp⟩ := h uid hu
    obtain ⟨_, hn⟩ := Option.isSome_iff_exists.mp hn
    obtain ⟨_, hp⟩ := Option.isSome_iff_exists.mp hp
    simp [f, hn, hp]
  rw [fetch_of_texts f hf]
  refine ⟨rfl, fun uid hu => ⟨⟨uid, f.name uid, f.picUrl uid⟩, ?_, rfl, hf uid hu⟩⟩
  have hi := List.idxOf_lt_length_of_mem hu
  simp [row, List.getElem?_eq_getElem hi]

theorem load_rendered_iff (hd : uids.Nodup) (hu : userData f = some (.array uids)) :
    (load f (some (some userData)) snaps).Rendered uids snaps ↔ Fetchable snaps uids := by
  simp only [load, hu]
  constructor
  · intro h
    refine fetchable_of_rows hd (fetch <| uids.map snaps).1 fun uid hu => ?_
    have ⟨row, hr, _⟩ := h.shown uid hu
    exact Option.isSome_of_eq_some hr
  · exact rendered_of_fetchable

-- Both screens render exactly when every lookup succeeds.
theorem rendered_iff (hd : uids.Nodup) :
    (userData "followers" = some (.array uids) →
      ((FollowerScreen.getFollowers (some (some userData)) snaps).Rendered uids snaps ↔
        Fetchable snaps uids)) ∧
    (userData "following" = some (.array uids) →
      ((FollowingScreen.getFollowing (some (some userData)) snaps).Rendered uids snaps ↔
        Fetchable snaps uids)) :=
  ⟨load_rendered_iff hd, load_rendered_iff hd⟩

-- Bob is found, while Carol's document no longer exists.
def bobOnly (uid : Uid) : Snap × Snap :=
  let snap := if uid = "bob" then some (some (FirebaseMethods.newProfile "bob" "bob" "bob@b.com"))
    else some none
  (snap, snap)

theorem rendered_of_bob :
    (FollowerScreen.getFollowers (some (some (.of [("followers", .array ["bob"])]))) bobOnly).Rendered
      ["bob"] bobOnly ∧
    (FollowingScreen.getFollowing (some (some (.of [("following", .array ["bob"])]))) bobOnly).Rendered
      ["bob"] bobOnly :=
  ⟨(rendered_iff (by decide)).left rfl |>.mpr (by decide),
    (rendered_iff (by decide)).right rfl |>.mpr (by decide)⟩

-- After loading Carol's row cannot be built.
theorem not_rendered_of_carol :
    let l := FollowerScreen.getFollowers
      (some (some (.of [("followers", .array ["bob", "carol"])]))) bobOnly
    l.row "carol" = none ∧ ¬l.Rendered ["bob", "carol"] bobOnly := by
  intro l
  have hr : l.row "carol" = none := rfl
  refine ⟨hr, fun h => ?_⟩
  have ⟨_, hs, _⟩ := h.shown "carol" (by decide)
  simp [hr] at hs

end UserList
