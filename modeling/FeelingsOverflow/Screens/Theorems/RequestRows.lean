import FeelingsOverflow.Screens.RequestList

open Execution

namespace RequestList

variable {f : Fetched} {uids : List Uid} {l l' : RequestList} {uid : Uid}

-- The remaining requests keep their order, and each row shows what was fetched for the user whom its
-- buttons act on.
structure Aligned (f : Fetched) (uids : List Uid) (l : RequestList) : Prop where
  order : List.Sublist l.requestsUid uids
  shown : l.build = l.requestsUid.map fun uid => some ⟨uid, f.name uid, f.picUrl uid⟩

-- The rows from the tapped one on look the same.
def AlikeBelow (f : Fetched) (l : RequestList) (t : Tap) : Prop :=
  ∀ uid ∈ l.requestsUid.drop (l.requestsUid.idxOf t.uid), f.look uid = f.look t.uid

-- What the lists hold at the index of each request.
def Matches (f : Fetched) (l : RequestList) : Prop :=
  ∀ (i : Nat) uid, l.requestsUid[i]? = some uid →
    l.requestsName[i]? = some (f.name uid) ∧ l.requestsPicUrl[i]? = some (f.picUrl uid)

theorem row_eq_iff : l.row uid = some ⟨uid, f.name uid, f.picUrl uid⟩ ↔
    l.requestsName[l.requestsUid.idxOf uid]? = some (f.name uid) ∧
    l.requestsPicUrl[l.requestsUid.idxOf uid]? = some (f.picUrl uid) := by
  simp [row, Option.bind_eq_some_iff]

theorem build_eq_iff (h : l.requestsUid.Nodup) :
    (l.build = l.requestsUid.map fun uid => some ⟨uid, f.name uid, f.picUrl uid⟩) ↔ Matches f l := by
  rw [build, List.map_inj_left]
  constructor
  · intro hb i uid hi
    have ⟨hl, hu⟩ := List.getElem?_eq_some_iff.mp hi
    have hr := row_eq_iff.mp <| hb uid (List.mem_of_getElem? hi)
    rwa [←hu, h.idxOf_getElem, hu] at hr
  · exact fun hm uid hu => row_eq_iff.mpr <| hm _ _ (List.getElem?_idxOf hu)

theorem tap_eq (h : l.tap t = some l') : t.uid ∈ l.requestsUid ∧
    l'.requestsUid = l.requestsUid.eraseIdx (l.requestsUid.idxOf t.uid) ∧
    l'.requestsName = l.requestsName ∧ l'.requestsPicUrl = l.requestsPicUrl := by
  simp only [tap, Option.ite_none_right_eq_some, Option.some.injEq] at h
  have ⟨hm, h⟩ := h
  subst h
  exact ⟨hm, List.erase_eq_eraseIdx_of_idxOf rfl, rfl, rfl⟩

theorem exists_above (h : l.requestsUid[i + 1]? = some uid) : ∃ u, l.requestsUid[i]? = some u := by
  have ⟨hi, _⟩ := List.getElem?_eq_some_iff.mp h
  exact ⟨_, List.getElem?_eq_getElem (Nat.lt_of_succ_lt hi)⟩

-- All rows below look like the tapped one as soon as each looks like the one right above it.
theorem alikeBelow_iff (h : t.uid ∈ l.requestsUid) : AlikeBelow f l t ↔
    ∀ i, l.requestsUid.idxOf t.uid ≤ i → ∀ u v, l.requestsUid[i]? = some u →
      l.requestsUid[i + 1]? = some v → f.look v = f.look u := by
  simp only [AlikeBelow, List.mem_iff_getElem?, List.getElem?_drop]
  constructor
  · intro ha i hi u v hu hv
    have hu := ha u ⟨i - l.requestsUid.idxOf t.uid, by rwa [Nat.add_sub_cancel' hi]⟩
    have hv := ha v ⟨i + 1 - l.requestsUid.idxOf t.uid, by rwa [Nat.add_sub_cancel' (by omega)]⟩
    exact hv.trans hu.symm
  · intro ha v ⟨k, hv⟩
    induction k generalizing v
    case zero =>
      rw [Nat.add_zero, List.getElem?_idxOf h] at hv
      exact congrArg f.look (Option.some.inj hv).symm
    case succ k hi =>
      have ⟨u, hu⟩ := exists_above hv
      exact (ha _ (Nat.le_add_right ..) u v hu hv).trans (hi u hu)

-- When a row is removed, each of the rows below shows what the one above it did.
theorem matches_tap_iff (hm : Matches f l) (h : l.tap t = some l') :
    Matches f l' ↔ AlikeBelow f l t := by
  have ⟨ht, hu, hn, hp⟩ := tap_eq h
  simp only [alikeBelow_iff ht, Matches, hu, hn, hp, List.getElem?_eraseIdx]
  constructor
  · intro hm' i hi u v hu hv
    have ⟨hn, hp⟩ := hm i u hu
    have ⟨hn', hp'⟩ := hm' i v <| by rwa [if_neg (Nat.not_lt.mpr hi)]
    exact Prod.ext (Option.some.inj <| hn'.symm.trans hn) (Option.some.inj <| hp'.symm.trans hp)
  · intro ha i v hv
    by_cases hi : i < l.requestsUid.idxOf t.uid
    case pos =>
      rw [if_pos hi] at hv
      exact hm i v hv
    case neg =>
      rw [if_neg hi] at hv
      have ⟨u, hu⟩ := exists_above hv
      have he := ha i (Nat.not_lt.mp hi) u v hu hv
      rw [show f.name v = f.name u from congrArg Prod.fst he,
        show f.picUrl v = f.picUrl u from congrArg Prod.snd he]
      exact hm i u hu

theorem nodup_tap (hn : l.requestsUid.Nodup) (h : l.tap t = some l') : l'.requestsUid.Nodup := by
  have ⟨_, hu, _⟩ := tap_eq h
  exact hu ▸ hn.sublist (List.eraseIdx_sublist ..)

theorem aligned_tap_iff (hn : l.requestsUid.Nodup) (ha : Aligned f uids l) (h : l.tap t = some l') :
    Aligned f uids l' ↔ AlikeBelow f l t := by
  have ⟨_, hu, _⟩ := tap_eq h
  have hm := build_eq_iff hn |>.mp ha.shown
  rw [←matches_tap_iff hm h, ←build_eq_iff (nodup_tap hn h)]
  constructor
  · exact Aligned.shown
  · exact fun hs => ⟨hu ▸ (List.eraseIdx_sublist ..).trans ha.order, hs⟩

theorem aligned_loaded (hn : uids.Nodup) (u : Uid) : Aligned f uids (loaded f u uids) := by
  refine ⟨.refl _, build_eq_iff hn |>.mpr ?_⟩
  intro i uid hi
  simp only [loaded] at hi
  simp [loaded, hi]

-- The rows stay aligned in exactly the runs in which each of the removed rows looks like all those
-- below.
theorem aligned_run_iff (hn : uids.Nodup) :
    Run (Into (Aligned f uids) (Fires tap)) (loaded f u uids) ts l ↔
      Run (Guarded (AlikeBelow f) (Fires tap)) (loaded f u uids) ts l :=
  Run.into_iff_guarded (J := fun l => l.requestsUid.Nodup) nodup_tap aligned_tap_iff hn
    (aligned_loaded hn u)

-- Everybody is shown by their UID.
def byUid : Fetched :=
  ⟨id, id⟩

theorem aligned_of_rejectLast : ∃ l,
    Run (Into (Aligned byUid ["alice", "bob"]) (Fires tap)) (loaded byUid "carol" ["alice", "bob"])
      [.reject "bob"] l :=
  ⟨_, aligned_run_iff (by decide) |>.mpr <| .step ⟨by unfold AlikeBelow; decide, rfl⟩ .refl⟩

-- The remaining row shows Alice, but its buttons act on Bob.
theorem not_aligned_of_acceptFirst : ∃ l,
    Run (Fires tap) (loaded byUid "carol" ["alice", "bob"]) [.accept "alice"] l ∧
    l.build = [some ⟨"bob", "alice", "alice"⟩] ∧ ¬Aligned byUid ["alice", "bob"] l :=
  ⟨_, .single rfl, by decide, fun h => absurd h.shown (by decide)⟩

end RequestList
