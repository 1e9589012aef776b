import FeelingsOverflow.Screens.Pair

open Firestore FirebaseMethods Execution Call

namespace App

-- The page `i` of `v`, which has been opened by `u`, offers to stop following, and shows how many
-- users follow.
structure ShowsUnfollow (i : Nat) (u v : Uid) (p : App θ) : Prop where
  calls : p.calls = []
  page : ∃ page ∈ p.screens.profiles[i]?, page.currentUser = u ∧ page.uid = v ∧
    page.userData "uid" = some (.string v) ∧ page.build = some .unfollow ∧
    page.followers = (elements p.store v "followers").length
  followers : u ∈ elements p.store v "followers"
  following : v ∈ elements p.store u "following"

-- The calls launched by taps on `Unfollow` do not fail, and no other call updates the two lists.
def Alone (i : Nat) (u v : Uid) (p : App (Task Uid Unit)) (e : Event) : Prop :=
  ∀ j ok l, e = .call j ok → p.calls[j]? = some l →
    (l.action = .press i .unfollow → ok = true) ∧
    (l.action ≠ .press i .unfollow → ∀ w fields, l.thread.pending = some (.update w fields) →
      (w = v → "followers" ∉ fields.map Prod.fst) ∧ (w = u → "following" ∉ fields.map Prod.fst))

-- All taps on `Unfollow` have had their effect.
def Answered (i : Nat) (p : App (Task Uid Unit)) : Prop :=
  ∀ l ∈ p.calls, l.action = .press i .unfollow →
    Call.machine.finished l.thread ∧ l.awaitedBy = none

def Unfollowed (i : Nat) (u v : Uid) (p : App θ) : Prop :=
  u ∉ elements p.store v "followers" ∧ v ∉ elements p.store u "following" ∧
    ∃ page ∈ p.screens.profiles[i]?, page.isFollowing = false ∧
      page.followers = (elements p.store v "followers").length

-- A page, but for the flag that is set by the other two buttons.
def shown (i : Nat) (p : App θ) : Option OtherUserProfile :=
  p.screens.profiles[i]?.map ({ · with requestSent := false })

end App

def Event.index : Event → Option Nat
  | .call j _ | .resume j => some j
  | .user _               => none

-- The call was launched by a tap on `Unfollow`.
def Launched.Own (i : Nat) (l : Launched θ) : Prop :=
  l.action = .press i .unfollow ∨ l.awaitedBy = some i

namespace App

section

variable {i : Nat} {u v : Uid} {p p' : App Paused}

theorem awaitedBy_eq {a : UserAction} (h : a.awaitedBy = some i) : a = .press i .unfollow := by
  cases a
  case press j b => cases b <;> simp_all [UserAction.awaitedBy]
  all_goals simp [UserAction.awaitedBy] at h

theorem shown_press (q : OtherUserProfile) (b : OtherUserProfile.Button) :
    { q.press b with requestSent := false } = { q with requestSent := false } := by
  cases b <;> rfl

-- What steps leave as it is which are none of the taps on `Unfollow` and their calls.
structure Frame (i : Nat) (u v : Uid) (p p' : App Paused) : Prop where
  followers : elements p'.store v "followers" = elements p.store v "followers"
  following : elements p'.store u "following" = elements p.store u "following"
  shown : (p.shown i).isSome → p'.shown i = p.shown i
  calls : ∀ (j : Nat) (l : Launched Paused), l.Own i → (p'.calls[j]? = some l ↔ p.calls[j]? = some l)

theorem getElem?_set_iff {P : α → Prop} {xs : List α} {j k : Nat} (hy : xs[j]? = some y)
    (hn : ¬P y) (hz : ¬P z) (hx : P x) : (xs.set j z)[k]? = some x ↔ xs[k]? = some x := by
  by_cases he : j = k
  case pos =>
    subst he
    rw [List.getElem?_set_self (List.getElem?_eq_some_iff.mp hy).choose, hy]
    constructor
    · rintro ⟨⟩
      exact absurd hx hz
    · rintro ⟨⟩
      exact absurd hx hn
  case neg => rw [List.getElem?_set_ne he]

theorem Step.frame (hs : Step Paused.machine paused p e p') (ha : Alone i u v (p.map Paused.code) e)
    (he : e ≠ .user (.press i .unfollow))
    (ho : ∀ j l, e.index = some j → p.calls[j]? = some l → ¬l.Own i) : Frame i u v p p' := by
  cases hs
  case user a sc cs hr =>
    refine ⟨rfl, rfl, fun hi => ?_, fun j l hl => ?_⟩
    · simp only [App.shown, Option.isSome_map] at hi ⊢
      obtain ⟨q, hq⟩ := Option.isSome_iff_exists.mp hi
      rcases hr.profile hq with ⟨_, rfl, _, _, hi⟩ | ⟨_, hi⟩
      · simp only [hi, hq, Option.map_some, shown_press]
      · simp only [hi, hq]
    · by_cases hj : j < p.calls.length
      case pos => rw [List.getElem?_append_left hj]
      case neg =>
        simp only [List.getElem?_append_right (Nat.not_lt.mp hj), List.getElem?_map,
          Option.map_eq_some_iff, List.getElem?_eq_none (Nat.not_lt.mp hj), reduceCtorEq, iff_false]
        rintro ⟨c, _, rfl⟩
        rcases hl with hl | hl
        · exact he (hl ▸ rfl)
        · exact he (awaitedBy_eq hl ▸ rfl)
  case call j l ok t st hj hm =>
    have hn := ho j l rfl hj
    have hf : elements st v "followers" = elements p.store v "followers" ∧
        elements st u "following" = elements p.store u "following" := by
      cases Paused.step_cases hm
      case update w g value hu _ _ =>
        have ⟨hv, hu⟩ := ((ha j ok (l.map Paused.code) rfl (by simp [hj])).right fun h => hn (.inl h)) w _
          (Paused.pending_code.mpr ⟨g, value, hu, rfl⟩)
        simp only [List.map_cons, List.map_nil, List.mem_singleton] at hv hu
        exact ⟨elements_updated_of_ne (fun h => hv h.symm) value,
          elements_updated_of_ne (fun h => hu h.symm) value⟩
      all_goals exact ⟨rfl, rfl⟩
    exact ⟨hf.left, hf.right, fun _ => rfl,
      fun k x hx => getElem?_set_iff (P := Launched.Own i) hj hn hn hx⟩
  case resume j l x q hj hx hq hd =>
    have hn := ho j l rfl hj
    refine ⟨rfl, rfl, fun _ => ?_, fun k x hx => ?_⟩
    · have hi : x ≠ i := fun hi => hn (.inr (hi ▸ hx))
      simp [App.shown, List.getElem?_set_ne hi]
    · refine getElem?_set_iff (P := Launched.Own i) hj hn (fun hi => ?_) hx
      rcases hi with hi | hi
      · exact hn (.inl hi)
      · simp at hi

-- How far the call has got that a tap has launched, where `F` are the followers before the tap.
def Progress (u v : Uid) (F : List Uid) (s : Users) : Control → Prop
  | .followUser | .removeFollower =>
    elements s v "followers" = F ∧ v ∈ elements s u "following"
  | .removeFollowing =>
    elements s v "followers" = arrayRemove F [u] ∧ v ∈ elements s u "following"
  | .returned =>
    elements s v "followers" = arrayRemove F [u] ∧ v ∉ elements s u "following"
  | _ => False

theorem Progress.congr {s s' : Users} (h : Progress u v F s c)
    (hv : elements s' v "followers" = elements s v "followers")
    (hu : elements s' u "following" = elements s u "following") : Progress u v F s' c := by
  cases c <;> simp only [Progress, hv, hu] at h ⊢ <;> exact h

theorem Progress.step (h : Progress u v F s c) (hF : u ∈ F)
    (hs : Paused.machine.step ⟨u, v, c⟩ true s = some (t, s')) :
    ∃ c', t = ⟨u, v, c'⟩ ∧ Progress u v F s' c' := by
  cases Paused.step_cases hs
  case get data hg _ hd =>
    refine ⟨_, rfl, ?_⟩
    cases c <;> simp only [Progress, Control.get, reduceCtorEq] at h hg
    obtain rfl := Option.some.inj hg
    obtain ⟨xs, hx, hv⟩ := array_of_mem_coercedArray h.right
    simp only [field, hd, Option.bind_some] at hx
    simp only [Control.resume, hx, hv, if_true]
    exact h
  case update hu _ hi =>
    refine ⟨_, rfl, ?_⟩
    cases c <;> simp only [Progress, Control.update, Option.some.injEq, Prod.mk.injEq,
      reduceCtorEq] at h hu
    case removeFollower =>
      obtain ⟨rfl, rfl, rfl⟩ := hu
      refine ⟨?_, ?_⟩
      · rw [←h.left]
        simp [elements, field_updated hi, FieldValue.apply]
      · rw [elements_updated_of_ne (by simp)]
        exact h.right
    case removeFollowing =>
      obtain ⟨rfl, rfl, rfl⟩ := hu
      refine ⟨?_, ?_⟩
      · rw [elements_updated_of_ne (by simp)]
        exact h.left
      · simp [elements, field_updated hi, FieldValue.apply, mem_arrayRemove]
  case fail hw hn =>
    have hu (h : v ∈ elements s u "following") : s u ≠ none := by
      simpa [Option.isSome_iff_ne_none] using isSome_of_mem_elements h
    have hv (h : u ∈ elements s v "followers") : s v ≠ none := by
      simpa [Option.isSome_iff_ne_none] using isSome_of_mem_elements h
    cases c <;> simp [Progress, Control.awaits, Control.get, Control.update] at h hw
    all_goals
      subst hw
    case followUser      => exact absurd (hn rfl) (hu h.right)
    case removeFollower  => exact absurd (hn rfl) (hv (h.left ▸ hF))
    case removeFollowing => exact absurd (hn rfl) (hu h.right)

-- `Unfollow` has not been tapped yet.
structure Untapped (i : Nat) (u v : Uid) (F : List Uid) (p : App Paused) : Prop where
  followers : elements p.store v "followers" = F
  following : v ∈ elements p.store u "following"
  page : ∃ page ∈ p.shown i, page.currentUser = u ∧ page.userData "uid" = some (.string v) ∧
    page.isFollowing = true ∧ page.followers = F.length
  calls : ∀ (j : Nat) (l : Launched Paused), p.calls[j]? = some l → ¬l.Own i

-- `Unfollow` has been tapped once, which has launched the call `k`.
structure Tapped (i : Nat) (u v : Uid) (F : List Uid) (k : Nat) (p : App Paused) : Prop where
  call : ∃ l c page, p.calls[k]? = some l ∧ l.action = .press i .unfollow ∧ l.thread = ⟨u, v, c⟩ ∧
    Progress u v F p.store c ∧ p.shown i = some page ∧
    (l.awaitedBy = some i ∧ page.isFollowing = true ∧ page.followers = F.length ∨
      l.awaitedBy = none ∧ c = .returned ∧ page.isFollowing = false ∧ page.followers = F.length - 1)
  calls : ∀ (j : Nat) (l : Launched Paused), p.calls[j]? = some l → l.Own i → j = k

theorem Untapped.step (h : Untapped i u v F p) (hs : Step Paused.machine paused p e p')
    (ha : Alone i u v (p.map Paused.code) e) (he : e ≠ .user (.press i .unfollow)) :
    Untapped i u v F p' := by
  have hf := hs.frame ha he fun j l _ hj => h.calls j l hj
  obtain ⟨page, hp, hx⟩ := h.page
  exact {
    followers := hf.followers.trans h.followers
    following := hf.following ▸ h.following
    page      := ⟨page, (hf.shown (Option.isSome_of_mem hp)).trans hp, hx⟩
    calls j l := fun hj hl => h.calls j l ((hf.calls j l hl).mp hj) hl
  }

theorem Untapped.press (h : Untapped i u v F p)
    (hs : Step Paused.machine paused p (.user (.press i .unfollow)) p') :
    Tapped i u v F p.calls.length p' := by
  obtain ⟨page, hp, hu, hd, hf, hc⟩ := h.page
  obtain ⟨q, hq, rfl⟩ := Option.map_eq_some_iff.mp hp
  simp only at hu hd hf hc
  cases hs
  case user sc cs hr =>
    rcases hr.profile hq with ⟨b, he, hb, rfl, hi⟩ | ⟨hn, _⟩
    case inr => exact absurd rfl (hn .unfollow)
    cases he
    have hl : q.launches .unfollow = [Call.followUser u v] := by
      simp [OtherUserProfile.launches, hd, hu]
    rw [hl]
    refine ⟨⟨_, .followUser, { q with requestSent := false }, List.getElem?_concat_length ..,
      rfl, rfl, ?_, ?_, ?_⟩, ?_⟩
    · exact ⟨h.followers, h.following⟩
    · simp only [shown, hi, Option.map_some, shown_press]
    · exact .inl ⟨rfl, hf, hc⟩
    · intro j l hj ho
      by_cases hk : j < p.calls.length
      case pos =>
        rw [List.getElem?_append_left hk] at hj
        exact absurd ho (h.calls j l hj)
      case neg =>
        have := (List.getElem?_eq_some_iff.mp hj).choose
        simp only [List.length_append, List.map_cons, List.map_nil, List.length_singleton] at this
        omega

theorem Tapped.step (h : Tapped i u v F k p) (hF : u ∈ F) (hs : Step Paused.machine paused p e p')
    (ha : Alone i u v (p.map Paused.code) e) (he : e ≠ .user (.press i .unfollow)) :
    Tapped i u v F k p' := by
  obtain ⟨⟨l, c, page, hk, hl, ht, hp, hi, hx⟩, ho⟩ := h
  by_cases hj : e.index = some k
  case neg =>
    have hf := hs.frame ha he fun j l hj' hl ho' => hj (ho j l hl ho' ▸ hj')
    refine ⟨⟨l, c, page, (hf.calls k l (.inl hl)).mpr hk, hl, ht,
      hp.congr hf.followers hf.following, (hf.shown (by simp [hi])).trans hi, hx⟩, ?_⟩
    exact fun j l hj hl => ho j l ((hf.calls j l hl).mp hj) hl
  case pos =>
    cases hs
    case user => simp [Event.index] at hj
    case call j l' ok t st hl' hm =>
      cases hj
      obtain rfl := Option.some.inj (hk.symm.trans hl')
      obtain rfl := (ha k ok (l.map Paused.code) rfl (by simp [hk])).left hl
      rw [ht] at hm
      obtain ⟨c', rfl, hp'⟩ := hp.step hF hm
      refine ⟨⟨_, c', page, List.getElem?_set_self (by grind), hl, rfl, hp', hi, ?_⟩, ?_⟩
      · rcases hx with hx | ⟨_, rfl, _⟩
        · exact .inl hx
        · have hn := Paused.machine.not_finished hm
          simp [(Paused.finished_iff _).mpr] at hn
      · intro j l' hj hl'
        by_cases hk' : k = j
        case pos => exact hk'.symm
        case neg => exact ho j l' (by rwa [List.getElem?_set_ne hk'] at hj) hl'
    case resume j l' x q hl' hx' hq hd =>
      cases hj
      obtain rfl := Option.some.inj (hk.symm.trans hl')
      rcases hx with ⟨hx, _, hc⟩ | ⟨hx, _⟩
      case inr => simp [hx] at hx'
      obtain rfl := Option.some.inj (hx.symm.trans hx')
      obtain rfl : c = .returned := by simpa [ht] using (Paused.finished_iff _).mp hd
      have hi' : page = { q with requestSent := false } := by
        simpa [shown, hq, eq_comm] using hi
      refine ⟨⟨_, .returned, { q.unfollowed with requestSent := false },
        List.getElem?_set_self (by grind), hl, ht, hp, ?_, .inr ⟨rfl, rfl, rfl, ?_⟩⟩, ?_⟩
      · simp [shown, (List.getElem?_eq_some_iff.mp hq).choose]
      · rw [hi'] at hc
        simpa [OtherUserProfile.unfollowed] using hc
      · intro j l' hj hl'
        by_cases hk' : k = j
        case pos => exact hk'.symm
        case neg => exact ho j l' (by rwa [List.getElem?_set_ne hk'] at hj) hl'

theorem Untapped.run (h : Untapped i u v F p) (hF : u ∈ F)
    (r : Run (Guarded (Alone i u v ∘ map Paused.code) (Fires pausedStep)) p es p')
    (hc : es.count (.user (.press i .unfollow)) = 1) : ∃ k, Tapped i u v F k p' := by
  obtain ⟨es₁, es₂, rfl⟩ := List.append_of_mem (List.count_pos_iff.mp (hc ▸ Nat.one_pos))
  simp only [List.count_append, List.count_cons_self] at hc
  have h₁ : .user (.press i .unfollow) ∉ es₁ := List.count_eq_zero.mp (by omega)
  have h₂ : .user (.press i .unfollow) ∉ es₂ := List.count_eq_zero.mp (by omega)
  obtain ⟨p₁, r₁, r₂⟩ := r.split
  have ht : Untapped i u v F p₁ := by
    refine (r₁.guard fun e he => ne_of_mem_of_not_mem he h₁).invariant (fun h hs => ?_) h
    exact h.step (stepOf_iff.mp hs.right.right) hs.right.left hs.left
  cases r₂
  case step hs r₂ =>
    refine ⟨p₁.calls.length, ?_⟩
    refine (r₂.guard fun e he => ne_of_mem_of_not_mem he h₂).invariant (fun h hs => ?_)
      (ht.press (stepOf_iff.mp hs.right))
    exact h.step hF (stepOf_iff.mp hs.right.right) hs.right.left hs.left

theorem Tapped.unfollowed_iff_count (h : Tapped i u v F k p) (hF : u ∈ F)
    (ha : Answered i (p.map Paused.code)) : Unfollowed i u v p ↔ F.count u = 1 := by
  obtain ⟨⟨l, c, page, hk, hl, ht, hp, hi, hx⟩, -⟩ := h
  obtain ⟨hd, hn⟩ := ha (l.map Paused.code)
    (by simpa using ⟨l, List.mem_of_getElem? hk, rfl⟩) hl
  obtain rfl : c = .returned := by simpa [Launched.map, ht] using (Paused.finished_code _).mp hd
  obtain ⟨q, hq, rfl⟩ := Option.map_eq_some_iff.mp hi
  rcases hx with ⟨hx, _⟩ | ⟨_, _, hf, hc⟩
  case inl => simp [Launched.map, hx] at hn
  have hv : u ∉ arrayRemove F [u] := by simp [mem_arrayRemove]
  have hu := List.count_pos_iff.mpr hF
  have hle : F.count u ≤ F.length := List.count_le_length
  simp only at hf hc
  simp only [Unfollowed, hp.left, hp.right, hv, hq, hf, hc, length_arrayRemove, not_false_eq_true,
    true_and, Option.mem_def, Option.some.injEq, exists_eq_left']
  omega

-- A run in which `Unfollow` is tapped `n` times.
def Taps (i : Nat) (u v : Uid) (n : Nat) (p p' : App Paused) : Prop :=
  ∃ es, es.count (.user (.press i .unfollow)) = n ∧
    Run (Guarded (Alone i u v ∘ map Paused.code) (Fires pausedStep)) p es p'

theorem Taps.trans (h₁ : Taps i u v m p₁ p₂) (h₂ : Taps i u v n p₂ p₃) :
    Taps i u v (m + n) p₁ p₃ := by
  obtain ⟨es₁, rfl, r₁⟩ := h₁
  obtain ⟨es₂, rfl, r₂⟩ := h₂
  exact ⟨es₁ ++ es₂, List.count_append, r₁.append r₂⟩

-- A call that was launched by a tap on `Unfollow`, and now is at a given point.
def tap (i : Nat) (u v : Uid) (b : Bool) (a : Option Nat) (c : Control) : Launched Paused where
  call      := .followUser u v
  action    := .press i .unfollow
  requested := b
  awaitedBy := a
  thread    := ⟨u, v, c⟩

section

variable {s : Users} {sc : Screens} {xs ys : List (Launched Paused)} {b : Bool}

theorem Taps.press (hq : sc.profiles[i]? = some q) (hu : q.currentUser = u)
    (hd : q.userData "uid" = some (.string v)) (hb : q.build = some .unfollow) (s : Users) :
    ∃ b, ∀ n xs, Taps i u v n ⟨s, sc, xs⟩
      ⟨s, sc, xs ++ List.replicate n (tap i u v b (some i) .followUser)⟩ := by
  let b : Bool := u ∈ elements s v "requests"
  let l := tap i u v b (some i) .followUser
  refine ⟨b, fun n => ?_⟩
  induction n
  case zero => exact fun xs => ⟨[], rfl, by simpa using Run.refl⟩
  case succ n hi =>
    intro xs
    have hs : pausedStep ⟨s, sc, xs⟩ (.user (.press i .unfollow)) = some ⟨s, sc, xs ++ [l]⟩ := by
      obtain ⟨hi, rfl⟩ := List.getElem?_eq_some_iff.mp hq
      simp [pausedStep, stepOf, Screens.react, hi, hb, OtherUserProfile.press, launch,
        OtherUserProfile.launches, hd, hu, l, tap, Call.pair, UserAction.awaitedBy, paused]
      rfl
    obtain ⟨es, hc, r⟩ := hi (xs ++ [l])
    refine ⟨.user (.press i .unfollow) :: es, by simp [hc], .step ⟨?_, hs⟩ ?_⟩
    · rintro _ _ _ ⟨⟩
    · simpa [List.replicate_succ, l] using r

theorem alone_tap (sc : Screens) (hj : e.index = some xs.length) (he : ∀ j, e ≠ .call j false) :
    Alone i u v (App.map Paused.code ⟨s, sc, xs ++ tap i u v b a c :: ys⟩) e := by
  rintro j ok l rfl hl
  cases hj
  rw [map_calls, List.getElem?_map, List.getElem?_append_right (Nat.le_refl _), Nat.sub_self] at hl
  obtain rfl := Option.some.inj hl
  refine ⟨fun _ => ?_, fun hn => absurd rfl hn⟩
  cases ok
  case false => exact absurd rfl (he _)
  case true  => rfl

-- The steps of the calls, as they are seen in the documents' view of the pair.
theorem Taps.step (hc : c ≠ .returned) (s : Users) (sc : Screens) (xs ys : List (Launched Paused)) :
    ∃ s', pairView u v s' = (PairView.act c (pairView u v s)).2 ∧ Taps i u v 0
      ⟨s, sc, xs ++ tap i u v b a c :: ys⟩
      ⟨s', sc, xs ++ tap i u v b a (PairView.act c (pairView u v s)).1 :: ys⟩ := by
  have hn : Paused.machine.finished ⟨u, v, c⟩ = false := by
    simpa using (Paused.finished_iff ⟨u, v, c⟩).not.mpr hc
  obtain ⟨t, s', hs⟩ := Paused.machine.exists_step hn true s
  have ⟨_, hx⟩ := PairView.act_of_step (pairView.own_step hs)
  simp only at hx
  obtain ⟨hu, hv⟩ := Prod.mk.inj (Paused.step_pair hs)
  rw [hx]
  refine ⟨s', rfl, [.call xs.length true], rfl, .single ⟨alone_tap sc rfl (by simp), ?_⟩⟩
  obtain ⟨_, _, c'⟩ := t
  simp only at hu hv
  subst hu hv
  simp [Fires, pausedStep, stepOf, tap, hs]

theorem Taps.finish (c : Control) (s : Users) (sc : Screens) (xs ys : List (Launched Paused)) :
    ∃ s', pairView u v s' = PairView.finish c (pairView u v s) ∧ Taps i u v 0
      ⟨s, sc, xs ++ tap i u v b a c :: ys⟩ ⟨s', sc, xs ++ tap i u v b a .returned :: ys⟩ := by
  induction hr : c.rank using Nat.strongRecOn generalizing c s
  case ind n hi =>
    by_cases hc : c = .returned
    case pos =>
      subst hc
      exact ⟨s, rfl, [], rfl, .refl⟩
    case neg =>
      have hn := PairView.rank_act c (pairView u v s)
      have hz := mt Control.rank_eq_zero hc
      obtain ⟨s₁, h₁, r₁⟩ := Taps.step (i := i) (b := b) (a := a) hc s sc xs ys
      obtain ⟨s₂, h₂, r₂⟩ := hi _ (by omega) (PairView.act c (pairView u v s)).1 s₁ rfl
      refine ⟨s₂, ?_, r₁.trans r₂⟩
      rw [h₂, h₁, PairView.finish_act]

-- What can be done to one call can be done to any number of them, one after another.
theorem Taps.sweep {I : Users → Screens → Prop} {x y : Launched Paused}
    (hI : ∀ s sc xs ys, I s sc → ∃ s' sc', I s' sc' ∧
      Taps i u v 0 ⟨s, sc, xs ++ x :: ys⟩ ⟨s', sc', xs ++ y :: ys⟩)
    (h : I s sc) (m : Nat) (xs ys : List (Launched Paused)) :
    ∃ s' sc', I s' sc' ∧ Taps i u v 0 ⟨s, sc, xs ++ (List.replicate m x ++ ys)⟩
      ⟨s', sc', xs ++ (List.replicate m y ++ ys)⟩ := by
  induction m generalizing s sc xs
  case zero => exact ⟨s, sc, h, [], rfl, .refl⟩
  case succ m hi =>
    obtain ⟨s₁, sc₁, h₁, r₁⟩ := hI s sc xs (List.replicate m x ++ ys) h
    obtain ⟨s₂, sc₂, h₂, r₂⟩ := hi h₁ (xs ++ [y])
    simp only [List.append_assoc, List.singleton_append] at r₂
    exact ⟨s₂, sc₂, h₂, r₁.trans r₂⟩

theorem Taps.resume (hq : sc.profiles[i]?.isSome) (s : Users) (xs ys : List (Launched Paused)) :
    ∃ s' sc', (s' = s ∧ sc'.profiles[i]?.isSome) ∧
      Taps i u v 0 ⟨s, sc, xs ++ tap i u v b (some i) .returned :: ys⟩
        ⟨s', sc', xs ++ tap i u v b none .returned :: ys⟩ := by
  obtain ⟨q, hq⟩ := Option.isSome_iff_exists.mp hq
  have hf : Paused.machine.finished ⟨u, v, .returned⟩ := (Paused.finished_iff _).mpr rfl
  refine ⟨s, { sc with profiles := sc.profiles.set i q.unfollowed }, ⟨rfl, ?_⟩,
    [.resume xs.length], rfl, .single ⟨alone_tap sc rfl (by simp), ?_⟩⟩
  · simp [Screens.profiles_unfollowed hq hq]
  · simp [Fires, pausedStep, stepOf, tap, hq, hf]

-- A single tap can be carried out to its end.
theorem Taps.single (hq : sc.profiles[i]? = some q) (hu : q.currentUser = u)
    (hd : q.userData "uid" = some (.string v)) (hb : q.build = some .unfollow) (s : Users) :
    ∃ s' sc' b, Taps i u v 1 ⟨s, sc, []⟩ ⟨s', sc', List.replicate 1 (tap i u v b none .returned)⟩ := by
  obtain ⟨b, r₀⟩ := Taps.press hq hu hd hb s
  obtain ⟨s₁, _, r₁⟩ := Taps.finish (i := i) (u := u) (v := v) (b := b) (a := some i) .followUser s sc [] []
  have hi : sc.profiles[i]?.isSome := by simp [hq]
  obtain ⟨s₂, sc₂, _, r₂⟩ := Taps.resume (u := u) (v := v) (b := b) hi s₁ [] []
  exact ⟨s₂, sc₂, b, ((r₀ 1 []).trans r₁).trans r₂⟩

-- When the last one of several calls takes its `get` only after all others have returned, it follows
-- again.
theorem Taps.refollow (hq : sc.profiles[i]? = some q) (hu : q.currentUser = u)
    (hd : q.userData "uid" = some (.string v)) (hb : q.build = some .unfollow)
    (hw : pairView u v s = ⟨true, true, .list true, f, r⟩) (m : Nat) :
    ∃ s' sc' b, (pairView u v s').followers ∧
      Taps i u v (m + 2) ⟨s, sc, []⟩ ⟨s', sc', List.replicate (m + 2) (tap i u v b none .returned)⟩ := by
  obtain ⟨b, r₀⟩ := Taps.press hq hu hd hb s
  have hi : sc.profiles[i]?.isSome := by simp [hq]
  let w : PairView := ⟨true, true, .list true, f, r⟩
  let x c := tap i u v b (some i) c
  -- All but the last call take their `get`, and find the follow.
  have ⟨s₁, _, ⟨h₁, he⟩, r₁⟩ : ∃ s' sc', (pairView u v s' = w ∧ sc' = sc) ∧ Taps i u v 0
      ⟨s, sc, [] ++ (List.replicate (m + 1) (x .followUser) ++ [x .followUser])⟩
      ⟨s', sc', [] ++ (List.replicate (m + 1) (x .removeFollower) ++ [x .followUser])⟩ := by
    refine Taps.sweep (fun s' sc' xs ys h => ?_) ⟨hw, rfl⟩ (m + 1) [] _
    obtain ⟨s'', h', r'⟩ := Taps.step (i := i) (u := u) (v := v) (b := b) (a := some i)
      (c := .followUser) (by simp) s' sc' xs ys
    rw [h.left] at h' r'
    exact ⟨s'', sc', ⟨h', h.right⟩, r'⟩
  rw [he] at r₁
  -- They remove it, one after another.
  have ⟨s₂, _, ⟨h₂, he⟩, r₂⟩ : ∃ s' sc',
      (((pairView u v s').uid ∧ (pairView u v s').other) ∧ sc' = sc) ∧ Taps i u v 0
        ⟨s₁, sc, [] ++ (List.replicate m (x .removeFollower) ++ [x .removeFollower, x .followUser])⟩
        ⟨s', sc', [] ++ (List.replicate m (x .returned) ++ [x .removeFollower, x .followUser])⟩ := by
    refine Taps.sweep (fun s' sc' xs ys h => ?_) ⟨by simp [h₁, w], rfl⟩ m [] _
    obtain ⟨s'', h', r'⟩ := Taps.finish (i := i) (u := u) (v := v) (b := b) (a := some i)
      .removeFollower s' sc' xs ys
    refine ⟨s'', sc', ⟨?_, h.right⟩, r'⟩
    rw [h', PairView.finish_removeFollower h.left.left h.left.right]
    exact h.left
  rw [he] at r₂
  obtain ⟨s₃, h₃, r₃⟩ := Taps.finish (i := i) (u := u) (v := v) (b := b) (a := some i)
    .removeFollower s₂ sc (List.replicate m (x .returned)) [x .followUser]
  rw [PairView.finish_removeFollower h₂.left h₂.right] at h₃
  -- The last call finds no follow.
  obtain ⟨s₄, h₄, r₄⟩ := Taps.finish (i := i) (u := u) (v := v) (b := b) (a := some i)
    .followUser s₃ sc (List.replicate m (x .returned) ++ [x .returned]) []
  rw [PairView.finish_followUser (w := pairView u v s₃) (by rw [h₃]; exact h₂.left)
    (by rw [h₃]; exact h₂.right) (by rw [h₃])] at h₄
  have ⟨s₅, sc₅, ⟨h₅, _⟩, r₅⟩ : ∃ s' sc', (s' = s₄ ∧ sc'.profiles[i]?.isSome) ∧ Taps i u v 0
      ⟨s₄, sc, [] ++ (List.replicate (m + 2) (x .returned) ++ [])⟩
      ⟨s', sc', [] ++ (List.replicate (m + 2) (tap i u v b none .returned) ++ [])⟩ := by
    refine Taps.sweep (fun s' sc' xs ys h => ?_) ⟨rfl, hi⟩ (m + 2) [] []
    exact h.left ▸ Taps.resume h.right s' xs ys
  refine ⟨s₅, sc₅, b, by rw [h₅, h₄], ?_⟩
  have r₀ := r₀ (m + 2) []
  simp only [List.nil_append, List.append_nil, List.replicate_succ', List.append_assoc,
    List.singleton_append] at r₀ r₁ r₂ r₃ r₄ r₅ ⊢
  exact ((((r₀.trans r₁).trans r₂).trans r₃).trans r₄).trans r₅

end

theorem pairView_of_following {s : Users} (hu : v ∈ elements s u "following")
    (hv : u ∈ elements s v "followers") :
    pairView u v s = ⟨true, true, .list true, true, (pairView u v s).requests⟩ := by
  obtain ⟨xs, hx, hm⟩ := array_of_mem_coercedArray hu
  ext1
  case uid       => exact isSome_of_mem_elements hu
  case other     => exact isSome_of_mem_elements hv
  case following => simp [pairView, hx, Listed.of, hm]
  case followers => exact followers_iff.mpr hv
  case requests  => rfl

theorem untapped_of_shows {s : Users} {sc : Screens} (h : ShowsUnfollow i u v (⟨s, sc, []⟩ : App Paused)) :
    Untapped i u v (elements s v "followers") ⟨s, sc, []⟩ where
  followers := rfl
  following := h.following
  page := by
    obtain ⟨q, hq, hu, _, hd, hb, hc⟩ := h.page
    exact ⟨_, Option.mem_map_of_mem _ hq, hu, hd, q.build_unfollow hb, hc⟩
  calls := by simp

theorem answered_replicate (s : Users) (sc : Screens) (n : Nat) (b : Bool) :
    Answered i (App.map Paused.code ⟨s, sc, List.replicate n (tap i u v b none .returned)⟩) := by
  intro l hl _
  simp only [map_calls, List.map_replicate] at hl
  obtain rfl := List.eq_of_mem_replicate hl
  exact ⟨(Paused.finished_code ⟨u, v, .returned⟩).mpr rfl, rfl⟩

end

theorem unfollowed_iff {p₀ : App (Task Uid Unit)} (h : ShowsUnfollow i u v p₀) (hn : 1 ≤ n) :
    (∀ es p, Run (Guarded (Alone i u v) (Fires step)) p₀ es p →
      es.count (.user (.press i .unfollow)) = n → p.Answered i → p.Unfollowed i u v) ↔
    n = 1 ∧ (elements p₀.store v "followers").count u = 1 := by
  obtain ⟨s, sc, calls⟩ := p₀
  obtain rfl : calls = [] := h.calls
  have ht := untapped_of_shows (i := i) (u := u) (v := v) (s := s) ⟨rfl, h.page, h.followers, h.following⟩
  obtain ⟨q, hq, hu, _, hd, hb, _⟩ := h.page
  constructor
  · intro ha
    obtain _ | _ | m := n
    case zero => simp at hn
    case succ.zero =>
      obtain ⟨s', sc', b, es, hc, r⟩ := Taps.single hq hu hd hb s
      obtain ⟨k, hk⟩ := ht.run h.followers r hc
      have hw := answered_replicate (i := i) (u := u) (v := v) s' sc' 1 b
      refine ⟨rfl, (hk.unfollowed_iff_count h.followers hw).mp ?_⟩
      exact ha es _ (run_guarded_map_iff.mpr ⟨_, r, rfl⟩) hc hw
    case succ.succ =>
      obtain ⟨s', sc', b, hf, es, hc, r⟩ :=
        Taps.refollow hq hu hd hb (pairView_of_following h.following h.followers) m
      have hw := ha es _ (run_guarded_map_iff.mpr ⟨_, r, rfl⟩) hc (answered_replicate s' sc' (m + 2) b)
      exact absurd (followers_iff.mp hf) hw.left
  · rintro ⟨rfl, hc⟩ es p r hes ha
    obtain ⟨p, rp, rfl⟩ := (run_guarded_map_iff (s := ⟨s, sc, []⟩)).mp r
    obtain ⟨k, hk⟩ := ht.run h.followers rp hes
    exact (hk.unfollowed_iff_count h.followers ha).mpr hc

-- Only the calls launched by taps on `Unfollow` take steps, and none of these fails.
def isAlone (i : Nat) (p : App (Task Uid Unit)) : Event → Bool
  | .call j ok => ok && p.calls[j]?.all (·.action = .press i .unfollow)
  | _          => true

theorem alone_of_isAlone (h : isAlone i p e) : Alone i u v p e := by
  rintro j ok l rfl hl
  simp only [isAlone, hl, Option.all_some, Bool.and_eq_true, decide_eq_true_eq] at h
  exact ⟨fun _ => h.left, fun hn => absurd h.right hn⟩

-- Alice, who follows Bob, has opened his profile.
def followedProfile : App (Task Uid Unit) :=
  let store := updated (updated (registered ["alice", "bob"])
    "bob" [("followers", .arrayUnion ["alice"])]) "alice" [("following", .arrayUnion ["bob"])]
  ⟨store, ⟨[.getData (some (store "bob", 0)) (.initial "alice" "bob")], []⟩, []⟩

theorem shows_followedProfile : ShowsUnfollow 0 "alice" "bob" followedProfile :=
  ⟨rfl, ⟨_, rfl, by decide⟩, by decide, by decide⟩

theorem run_alone_of_exec (es : List Event) (q : App (Task Uid Unit) → Bool)
    (h : (Fires.exec (fun p e => if isAlone 0 p e then step p e else none) followedProfile es).any
      fun p => p.calls.all (fun l => Call.machine.finished l.thread && l.awaitedBy.isNone) && q p) :
    ∃ p, Run (Guarded (Alone 0 "alice" "bob") (Fires step)) followedProfile es p ∧
      Answered 0 p ∧ q p := by
  obtain ⟨p, r, h⟩ := Fires.run_guarded_of_exec step (fun p e => isAlone 0 p e) followedProfile es _ h
  simp only [Bool.and_eq_true, List.all_eq_true, Option.isNone_iff_eq_none] at h
  exact ⟨p, r.mono fun h => ⟨alone_of_isAlone h.left, h.right⟩, fun l hl _ => h.left l hl, h.right⟩

-- Alice stops following Bob.
theorem unfollowed_of_singleTap : ∃ p,
    Run (Guarded (Alone 0 "alice" "bob") (Fires step)) followedProfile
      [.user (.press 0 .unfollow), .call 0 true, .call 0 true, .call 0 true, .resume 0] p ∧
    Unfollowed 0 "alice" "bob" p := by
  have ⟨p, r, ha, _⟩ := run_alone_of_exec
    [.user (.press 0 .unfollow), .call 0 true, .call 0 true, .call 0 true, .resume 0]
    (fun _ => true) (by decide)
  exact ⟨p, r, (unfollowed_iff shows_followedProfile (n := 1) (by decide)).mpr
    ⟨rfl, by decide⟩ _ p r rfl ha⟩

-- After the first tap has made Alice stop following, the second one makes her follow again.
theorem not_unfollowed_of_doubleTap : ∃ p,
    ShowsUnfollow 0 "alice" "bob" followedProfile ∧
    Run (Guarded (Alone 0 "alice" "bob") (Fires step)) followedProfile
      [.user (.press 0 .unfollow), .user (.press 0 .unfollow), .call 0 true, .call 0 true,
        .call 0 true, .call 1 true, .call 1 true, .call 1 true, .resume 0, .resume 1] p ∧
    Answered 0 p ∧ "alice" ∈ elements p.store "bob" "followers" ∧
    ¬Unfollowed 0 "alice" "bob" p := by
  have ⟨p, r, ha, hm⟩ := run_alone_of_exec
    [.user (.press 0 .unfollow), .user (.press 0 .unfollow), .call 0 true, .call 0 true,
      .call 0 true, .call 1 true, .call 1 true, .call 1 true, .resume 0, .resume 1]
    (fun p => "alice" ∈ elements p.store "bob" "followers") (by decide)
  have hm := of_decide_eq_true hm
  exact ⟨p, shows_followedProfile, r, ha, hm, fun hu => hu.left hm⟩

end App
