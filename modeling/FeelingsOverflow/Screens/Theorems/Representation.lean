import FeelingsOverflow.Screens.Sound

open Firestore FirebaseMethods Execution Call

-- The documents as the app keeps them: Each is stored under its own UID, and its lists hold no user
-- twice, nor the document's own user.
def Users.WellFormed (s : Users) : Prop :=
  ∀ i, (s i).isSome → field s i "uid" = some (.string i) ∧
    ∀ f ∈ ["followers", "following", "requests"],
      ∃ xs, field s i f = some (.array xs) ∧ xs.Nodup ∧ i ∉ xs

namespace Users.WellFormed

variable {s : Users}

theorem fresh (h : Fresh s) : WellFormed s := by
  intro i hi
  obtain ⟨d, hd⟩ := Option.isSome_iff_exists.mp hi
  obtain ⟨_, _, rfl⟩ := h i d hd
  refine ⟨by simp [field, hd, newProfile, Document.of, List.lookup], fun f hf => ⟨[], ?_⟩⟩
  simp only [List.mem_cons, List.not_mem_nil, or_false] at hf
  rcases hf with rfl | rfl | rfl <;> simp [field, hd, newProfile, Document.of, List.lookup]

theorem nodup (h : WellFormed s) (u : Uid) (hf : f ∈ ["followers", "following", "requests"]) :
    (elements s u f).Nodup ∧ u ∉ elements s u f := by
  cases hs : s u
  case none => simp [elements, field, hs, coercedArray]
  case some =>
    obtain ⟨xs, hx, hn⟩ := (h u (by simp [hs])).right f hf
    simpa [elements, hx] using hn

theorem updated {c : Control} (h : WellFormed s) (hu : c.update u v = some (i, f, value))
    (hn : u ≠ v) : WellFormed (updated s i [(f, value)]) := by
  intro j hj
  rw [updated_isSome] at hj
  obtain ⟨hd, hl⟩ := h j hj
  have hf : f ≠ "uid" := by
    cases c <;> simp_all [Control.update] <;> simp [←hu.right.left]
  refine ⟨by rwa [field_updated_of_ne hf.symm], fun g hg => ?_⟩
  obtain ⟨xs, hx, hx'⟩ := hl g hg
  by_cases hi : j = i
  case neg => exact ⟨xs, by rwa [field_updated_of_ne_id hi], hx'⟩
  by_cases hgf : g = f
  case neg => exact ⟨xs, by rwa [field_updated_of_ne hgf], hx'⟩
  subst hi hgf
  rw [field_updated hj, hx]
  cases c <;> simp only [Control.update, Option.some.injEq, Prod.mk.injEq, reduceCtorEq] at hu
  case createRequest =>
    obtain ⟨-, rfl, -⟩ := hu
    simp at hg
  all_goals
    obtain ⟨rfl, -, rfl⟩ := hu
    refine ⟨_, rfl, ?_⟩
    simp [nodup_arrayUnion, nodup_arrayRemove, mem_arrayUnion, mem_arrayRemove, hx', hn, hn.symm]

end Users.WellFormed

-- What the screens show: A page has no data or that of its own user, and nobody finds themself among
-- the users who request to follow them.
structure Screens.Honest (s : Screens) : Prop where
  profiles : ∀ page ∈ s.profiles,
    page.userData = (fun _ => none) ∨ page.userData "uid" = some (.string page.uid)
  searchTabs : ∀ tab ∈ s.searchTabs, tab.currentUserUid ∉ tab.requestsUid

namespace Screens.Honest

variable {s s' : Screens} {store : Users} {page : OtherUserProfile} {p : Nat}

theorem getRequests (h : store.WellFormed) (loaded : Bool) (u : Uid) :
    u ∉ (SearchTab.getRequests (if loaded then some (store u) else none) u).requestsUid := by
  cases loaded
  case false => simp [SearchTab.getRequests]
  case true =>
    have hn := (h.nodup u (f := "requests") (by simp)).right
    cases hs : store u
    case none => simp [SearchTab.getRequests]
    case some d =>
      simp only [elements, field, hs, Option.bind_some] at hn
      simp only [SearchTab.getRequests, if_true]
      split
      case h_1 hd => simpa [hd] using hn
      case h_2    => simp

theorem getData (h : store.WellFormed) (posts : Option Nat) :
    let page := OtherUserProfile.getData (posts.map (store v, ·)) (.initial u v)
    page.userData = (fun _ => none) ∨ page.userData "uid" = some (.string page.uid) := by
  rcases OtherUserProfile.getData_userData (posts.map (store v, ·)) (.initial u v) with hd | hd
  · exact .inl hd
  · simp only [Option.bind_map, Option.bind_eq_some_iff, Function.comp_apply] at hd
    obtain ⟨_, _, hd⟩ := hd
    have hv := (h v (by rw [hd]; rfl)).left
    rw [field, hd] at hv
    exact .inr (by simpa [OtherUserProfile.initial] using hv)

theorem react (h : s.Honest) (hw : store.WellFormed) (hr : s.React store a s' calls) :
    s'.Honest := by
  have remove {k x} {tab : SearchTab} (hk : s.searchTabs[k]? = some tab) :
      ∀ t ∈ s.searchTabs.set k (tab.remove x), t.currentUserUid ∉ t.requestsUid := by
    apply List.forall_mem_set h.searchTabs
    exact fun hm => h.searchTabs tab (List.mem_of_getElem? hk) (SearchTab.mem_of_mem_remove hm)
  cases hr
  case openProfile =>
    refine ⟨fun page hp => ?_, h.searchTabs⟩
    rcases List.mem_append.mp hp with hp | hp
    · exact h.profiles page hp
    · obtain rfl := List.mem_singleton.mp hp
      exact getData hw _
  case openSearchTab u loaded =>
    refine ⟨h.profiles, fun tab ht => ?_⟩
    rcases List.mem_append.mp ht with ht | ht
    · exact h.searchTabs tab ht
    · obtain rfl := List.mem_singleton.mp ht
      exact getRequests hw loaded u
  case press page b hp _ =>
    refine ⟨List.forall_mem_set h.profiles ?_, h.searchTabs⟩
    simpa using h.profiles page (List.mem_of_getElem? hp)
  case accept hk _ => exact ⟨h.profiles, remove hk⟩
  case reject hk _ => exact ⟨h.profiles, remove hk⟩

theorem pair_of_launches {c : Call} (h : s.Honest) (hp : s.profiles[p]? = some page)
    (hc : c ∈ page.launches b) : c.pair = (page.currentUser, page.uid) := by
  have ⟨uid, hu, hd⟩ := OtherUserProfile.mem_launches hc
  rcases hd with rfl | hd
  · exact hu
  · rcases h.profiles page (List.mem_of_getElem? hp) with hn | hn <;> simp [hn] at hd
    rw [hu, hd]

theorem launches_unfollow (h : s.Honest) (hp : s.profiles[p]? = some page)
    (hb : page.build = some b) :
    page.launches .unfollow = [Call.followUser page.currentUser page.uid] := by
  rcases h.profiles page (List.mem_of_getElem? hp) with hn | hn
  · simp [OtherUserProfile.build, OtherUserProfile.builds, hn] at hb
  · simp [OtherUserProfile.launches, hn]

-- No call that is launched from a screen is about one user alone.
theorem ne_of_react (h : s.Honest) (hr : s.React store a s' calls) (hc : c ∈ calls) :
    c.pair.1 ≠ c.pair.2 := by
  cases hr
  case openProfile | openSearchTab => simp at hc
  case press page _ hp hb =>
    rw [h.pair_of_launches hp hc]
    exact OtherUserProfile.ne_of_build hb
  case accept tab uid hk hu =>
    have hn : uid ≠ tab.currentUserUid :=
      fun he => h.searchTabs tab (List.mem_of_getElem? hk) (he ▸ hu)
    simp only [SearchTab.accept, List.mem_cons, List.not_mem_nil, or_false] at hc
    rcases hc with rfl | rfl <;> exact hn
  case reject tab uid hk hu =>
    have hn : uid ≠ tab.currentUserUid :=
      fun he => h.searchTabs tab (List.mem_of_getElem? hk) (he ▸ hu)
    obtain rfl := List.mem_singleton.mp hc
    exact hn

theorem unfollowed (h : s.Honest) (hp : s.profiles[p]? = some page) :
    Honest { s with profiles := s.profiles.set p page.unfollowed } where
  searchTabs := h.searchTabs
  profiles   := List.forall_mem_set h.profiles <| h.profiles page (List.mem_of_getElem? hp)

end Screens.Honest

namespace App

structure Represented (s : App Paused) : Prop where
  store : s.store.WellFormed
  screens : s.screens.Honest
  calls : ∀ l ∈ s.calls, l.thread.uid ≠ l.thread.other

theorem represented_initial (h : Fresh s) : (initial s).Represented where
  store   := .fresh h
  screens := ⟨by simp [initial], by simp [initial]⟩
  calls   := by simp [initial]

theorem Represented.step {s s' : App Paused} (h : s.Represented)
    (hs : Step Paused.machine paused s e s') : s'.Represented := by
  constructor
  case store =>
    cases hs
    case call hi hm =>
      cases Paused.step_cases hm
      case update hu _ _ => exact h.store.updated hu (h.calls _ (List.mem_of_getElem? hi))
      all_goals exact h.store
    all_goals exact h.store
  case screens =>
    cases hs
    case user hr          => exact h.screens.react h.store hr
    case call             => exact h.screens
    case resume _ _ hp _  => exact h.screens.unfollowed hp
  case calls =>
    refine hs.forall_calls (P := fun l _ => l.thread.uid ≠ l.thread.other) h.calls ?_ ?_ ?_
    case refine_1 =>
      intro a _ _ c hr hc
      have hn := h.screens.ne_of_react hr hc
      cases c <;> exact hn
    case refine_2 =>
      intro i l ok t st _ hi hm
      have ⟨hu, ho⟩ := Prod.mk.inj (Paused.step_pair hm)
      exact ⟨by simpa [hu, ho] using h.calls l (List.mem_of_getElem? hi), fun _ _ h => h⟩
    case refine_3 => exact fun {l} hl => h.calls l hl

end App
