import FeelingsOverflow.Screens.Pair

open Firestore FirebaseMethods Execution Call

-- The call that is launched by the tap which sets the flag `requestSent` to `b`.
def Call.setting (b : Bool) (u v : Uid) : Call :=
  if b then .requestFollow u v else .stopFollow u v

namespace App

def requestSent (i : Nat) (p : App θ) : Bool :=
  p.screens.profiles[i]?.any (·.requestSent)

-- The page `i` of `v` has been opened by `u`, who has neither followed `v` nor requested to.
structure Opened (i : Nat) (u v : Uid) (p : App θ) : Prop where
  calls : p.calls = []
  page : ∃ page ∈ p.screens.profiles[i]?, page.currentUser = u ∧ page.uid = v ∧
    page.isFollowing = false ∧ page.requestSent = false
  requests : ∃ xs, field p.store v "requests" = some (.array xs) ∧ u ∉ xs

-- Nobody launches a call about the pair but by tapping on the page, and none of their steps fails.
def FromPage (i : Nat) (u v : Uid) (p : App θ) (e : Event) : Prop :=
  (∀ a sc cs, e = .user a → p.screens.React p.store a sc cs → ∀ c ∈ cs, c.pair = (u, v) →
    ∃ b, a = .press i b) ∧
  (∀ j l, e = .call j false → p.calls[j]? = some l → l.call.pair ≠ (u, v))

-- The event is a step of a call which has been launched by setting the flag to `b`, and which now
-- updates the requests.
def Updates (b : Bool) (u v : Uid) (p : App (Task Uid Unit)) (e : Event) : Prop :=
  ∃ j l fields, e = .call j true ∧ p.calls[j]? = some l ∧ l.call = setting b u v ∧
    l.thread.pending = some (.update v fields)

-- The requests are updated against the flag, while no call that would set them right is in flight.
def Contradicts (i : Nat) (u v : Uid) (p : App (Task Uid Unit)) (e : Event) : Prop :=
  Updates (!p.requestSent i) u v p e ∧
  ∀ l ∈ p.calls, l.call = setting (p.requestSent i) u v → Call.machine.finished l.thread

section

variable {u v : Uid} {i : Nat}

def requested (u v : Uid) (p : App Paused) : Bool :=
  (pairView u v p.store).requests.isMember

-- Calls that set the requests right when the flag is `b`, and have not returned.
def InFlight (b : Bool) (u v : Uid) (calls : List (Launched Paused)) : Prop :=
  ∃ (j : Nat) (l : _), calls[j]? = some l ∧ l.call = setting b u v ∧ l.thread.control ≠ .returned

variable {calls : List (Launched Paused)} {l l' : Launched Paused}

theorem inFlight_set (hj : calls[j]? = some l) (h : InFlight b u v calls) :
    InFlight b u v (calls.set j l') ∨ l.call = setting b u v ∧ l.thread.control ≠ .returned := by
  obtain ⟨n, x, hn, hx⟩ := h
  by_cases he : n = j
  case pos =>
    subst he
    obtain rfl := Option.some.inj (hj.symm.trans hn)
    exact .inr hx
  case neg => exact .inl ⟨n, x, by rwa [List.getElem?_set_ne (Ne.symm he)], hx⟩

theorem of_inFlight_set (h : InFlight b u v (calls.set j l')) :
    InFlight b u v calls ∨ l'.call = setting b u v ∧ l'.thread.control ≠ .returned := by
  obtain ⟨n, x, hn, hx⟩ := h
  rcases List.mem_or_eq_of_mem_set (List.mem_of_getElem? hn) with hm | rfl
  · obtain ⟨m, hm⟩ := List.mem_iff_getElem?.mp hm
    exact .inl ⟨m, x, hm, hx⟩
  · exact .inr hx

structure Tapping (i : Nat) (u v : Uid) (p : App Paused) : Prop where
  sound : p.Sound
  other : (pairView u v p.store).other
  requests : (pairView u v p.store).requests = .list (p.requested u v)
  page : ∃ page ∈ p.screens.profiles[i]?,
    page.currentUser = u ∧ page.uid = v ∧ page.isFollowing = false
  calls : ∀ l ∈ p.calls, l.call.pair = (u, v) →
    (∃ b, l.call = setting b u v) ∧ l.thread.control ≠ .createRequest

theorem setting_pair (b : Bool) (u v : Uid) : (setting b u v).pair = (u, v) := by
  cases b <;> rfl

-- What a step of one of the calls does: It updates the requests, or returns because nothing is to do.
theorem act_setting {c : Control} {w : PairView} (hc : c ∈ (setting b u v).controls)
    (hn : c ≠ .returned) (hr : c ≠ .createRequest) (ho : w.other) (hw : w.requests = .list m) :
    (∃ f value, c.update u v = some (v, f, value)) ∧ PairView.act c w =
      (.returned, { w with requests := .list b }) ∨
    c.update u v = none ∧ (PairView.act c w).2 = w ∧ (PairView.act c w).1 ≠ .createRequest ∧
      ((PairView.act c w).1 = .returned → m = b) := by
  obtain ⟨uid, other, following, followers, requests⟩ := w
  obtain rfl : other = true := ho
  obtain rfl : requests = .list m := hw
  cases b <;> cases c <;> simp only [setting, Call.controls, Bool.false_eq_true, if_true, if_false,
    List.mem_cons, List.not_mem_nil, reduceCtorEq, or_false, ne_eq, not_true_eq_false] at hc hn hr
  all_goals
    cases m <;> simp [PairView.act, PairView.accepts, PairView.next, PairView.apply, Control.update,
      Control.next]

-- All that a step does which is no tap on the page.
structure Effect (i : Nat) (u v : Uid) (p : App Paused) (e : Event) (p' : App Paused) : Prop where
  requestSent : p'.requestSent i = p.requestSent i
  of_inFlight : ∀ {b}, InFlight b u v p'.calls → InFlight b u v p.calls
  inFlight : ∀ {b}, InFlight b u v p.calls → InFlight b u v p'.calls ∨ p'.requested u v = b
  requested : p'.requested u v = p.requested u v ∨ ∃ b, Updates b u v (p.map Paused.code) e
  updates : ∀ {b}, Updates b u v (p.map Paused.code) e → p'.requested u v = b

theorem setting_inj (h : setting a u v = setting b u v) : a = b := by
  cases a <;> cases b <;> simp [setting] at h ⊢

theorem updates_call {p : App Paused} (hj : p.calls[j]? = some l) :
    Updates b u v (p.map Paused.code) (.call j ok) ↔ ok = true ∧ l.call = setting b u v ∧
      ∃ f value, l.thread.control.update l.thread.uid l.thread.other = some (v, f, value) := by
  constructor
  · rintro ⟨_, x, fields, he, hx, hc, hp⟩
    cases he
    simp only [map_calls, List.getElem?_map, hj, Option.map_some, Option.some.injEq] at hx
    subst hx
    refine ⟨rfl, hc, ?_⟩
    obtain ⟨f, value, hu, -⟩ := Paused.pending_code.mp hp
    exact ⟨f, value, hu⟩
  · rintro ⟨rfl, hc, f, value, hu⟩
    exact ⟨j, l.map Paused.code, _, rfl, by simp [hj], hc, Paused.pending_code.mpr ⟨f, value, hu, rfl⟩⟩

-- The state after a step of the call with index `j`.
def stepped (p : App Paused) (j : Nat) (l : Launched Paused) (t : Paused) (s : Users) :
    App Paused :=
  { p with store := s, calls := p.calls.set j { l with thread := t } }

section

variable {p : App Paused} {s : Users} {t : Paused} {j : Nat}
variable (h : Tapping i u v p) (hj : p.calls[j]? = some l)
include h hj

theorem Tapping.call_other (hm : Paused.machine.step l.thread ok p.store = some (t, s))
    (hp : l.thread.pair ≠ (u, v)) :
    Tapping i u v (stepped p j l t s) ∧ Effect i u v p (.call j ok) (stepped p j l t s) := by
  have hl := h.sound l (List.mem_of_getElem? hj)
  have hs : (stepped p j l t s).Sound := h.sound.step (.call hj hm)
  have hv := pairView.other_step hl.sound hp hm
  have hc : l.call.pair ≠ (u, v) := hl.pair ▸ hp
  have hn (b : Bool) : l.call ≠ setting b u v := fun he => hc (he ▸ setting_pair b u v)
  constructor
  · refine ⟨hs, hv ▸ h.other, ?_, h.page, List.forall_mem_set h.calls fun hx => absurd hx hc⟩
    simpa [stepped, requested, hv] using h.requests
  · refine ⟨rfl, fun hf => ?_, fun hf => ?_, .inl (by simp [stepped, requested, hv]), fun hu => ?_⟩
    · exact (of_inFlight_set hf).resolve_right fun hf => hn _ hf.left
    · exact .inl <| (inFlight_set hj hf).resolve_right fun hf => hn _ hf.left
    · exact absurd ((updates_call hj).mp hu).right.left (hn _)

theorem Tapping.call_update (hs : (stepped p j l t s).Sound) (hb : l.call = setting b u v)
    (hu : ∃ f value, l.thread.control.update l.thread.uid l.thread.other = some (v, f, value))
    (ht : t.control = .returned)
    (hw : pairView u v s = { pairView u v p.store with requests := .list b }) :
    Tapping i u v (stepped p j l t s) ∧ Effect i u v p (.call j true) (stepped p j l t s) := by
  have hr : requested u v (stepped p j l t s) = b := by
    simp [stepped, requested, hw, Listed.isMember]
  constructor
  · refine ⟨hs, by simpa [stepped, hw] using h.other, by rw [hr, stepped, hw], h.page, ?_⟩
    exact List.forall_mem_set h.calls fun _ => ⟨⟨b, hb⟩, by simp [ht]⟩
  · refine ⟨rfl, fun hf => ?_, fun hf => ?_, .inr ⟨b, (updates_call hj).mpr ⟨rfl, hb, hu⟩⟩, ?_⟩
    · exact (of_inFlight_set hf).resolve_right fun hf => hf.right ht
    · refine (inFlight_set hj hf).imp_right fun hf => ?_
      rw [hr, setting_inj (hf.left.symm.trans hb)]
    · intro c hu
      rw [hr, setting_inj (((updates_call hj).mp hu).right.left.symm.trans hb)]

theorem Tapping.call_skip (hs : (stepped p j l t s).Sound) (hb : l.call = setting b u v)
    (hn : l.thread.control ≠ .returned)
    (hu : l.thread.control.update l.thread.uid l.thread.other = none)
    (hw : pairView u v s = pairView u v p.store) (hc : t.control ≠ .createRequest)
    (hx : t.control = .returned → p.requested u v = b) :
    Tapping i u v (stepped p j l t s) ∧ Effect i u v p (.call j true) (stepped p j l t s) := by
  have hr : requested u v (stepped p j l t s) = p.requested u v := by
    simp [stepped, requested, hw]
  constructor
  · refine ⟨hs, hw ▸ h.other, by rw [hr, stepped, hw]; exact h.requests, h.page, ?_⟩
    exact List.forall_mem_set h.calls fun _ => ⟨⟨b, hb⟩, hc⟩
  · refine ⟨rfl, fun hf => ?_, fun hf => ?_, .inl hr, fun hu' => ?_⟩
    · rcases of_inFlight_set hf with hf | ⟨hf, -⟩
      · exact hf
      · exact ⟨j, l, hj, hf, hn⟩
    · rcases inFlight_set hj hf with hf | ⟨hf, -⟩
      · exact .inl hf
      · by_cases ht : t.control = .returned
        case pos => exact .inr (by rw [hr, hx ht, setting_inj (hf.symm.trans hb)])
        case neg => exact .inl ⟨j, _, List.getElem?_set_self (by grind), hf, ht⟩
    · obtain ⟨_, _, _, _, hu'⟩ := (updates_call hj).mp hu'
      simp [hu] at hu'

theorem Tapping.call (hm : Paused.machine.step l.thread ok p.store = some (t, s))
    (ho : ok = false → l.call.pair ≠ (u, v)) :
    Tapping i u v (stepped p j l t s) ∧ Effect i u v p (.call j ok) (stepped p j l t s) := by
  have hl := h.sound l (List.mem_of_getElem? hj)
  by_cases hp : l.thread.pair = (u, v)
  case neg => exact h.call_other hj hm hp
  case pos =>
    cases ok
    case false => exact absurd (hl.pair ▸ hp) (ho rfl)
    case true =>
      have hs : (stepped p j l t s).Sound := h.sound.step (.call hj hm)
      have ⟨⟨b, hb⟩, hr⟩ := h.calls l (List.mem_of_getElem? hj) (hl.pair ▸ hp)
      obtain ⟨rfl, rfl⟩ := Prod.mk.inj hp
      have ⟨hn, ha⟩ := PairView.act_of_step (pairView.own_step hm)
      have hx := act_setting (hb ▸ hl.control) hn hr h.other h.requests
      rw [ha] at hx
      rcases hx with ⟨hu, he⟩ | ⟨hu, hw, hc, hx⟩
      · have ⟨ht, hw⟩ := Prod.mk.inj he
        exact h.call_update hj hs hb hu ht hw
      · exact h.call_skip hj hs hb hn hu hw hc hx

end

theorem requestSent_eq {p : App θ} (hp : p.screens.profiles[i]? = some page) :
    p.requestSent i = page.requestSent := by
  simp [requestSent, hp]

theorem setting_paused (b : Bool) (u v : Uid) : (setting b u v).paused.control ≠ .createRequest ∧
    (setting b u v).paused.control ≠ .returned := by
  cases b <;> simp [setting, paused]

-- A tap on the page launches the call that sets the new flag.
theorem press_setting {page : OtherUserProfile} (hu : page.currentUser = u) (hv : page.uid = v)
    (hf : page.isFollowing = false) (hb : page.build = some b) :
    page.launches b = [setting (page.press b).requestSent u v] ∧ (page.press b).isFollowing = false := by
  subst hu hv
  cases b
  case unfollow => simp [page.build_unfollow hb] at hf
  all_goals exact ⟨rfl, hf⟩

theorem Tapping.press {p : App Paused} (h : Tapping i u v p)
    (hr : p.screens.React p.store (.press i b) sc cs) :
    (∃ page ∈ sc.profiles[i]?, page.currentUser = u ∧ page.uid = v ∧ page.isFollowing = false) ∧
      cs = [setting (sc.profiles[i]?.any (·.requestSent)) u v] := by
  obtain ⟨page, hp, hu, hv, hn⟩ := h.page
  rcases hr.profile hp with ⟨b', he, hb, rfl, hi⟩ | ⟨hb, _⟩
  case inl =>
    cases he
    have ⟨hl, hn'⟩ := press_setting hu hv hn hb
    exact ⟨⟨_, hi, by simpa using hu, by simpa using hv, hn'⟩, by simpa [hi] using hl⟩
  case inr => exact absurd rfl (hb b)

theorem Tapping.no_press {p : App Paused} (h : Tapping i u v p) (hf : FromPage i u v p (.user a))
    (hr : p.screens.React p.store a sc cs) (ha : ∀ b, a ≠ .press i b) :
    sc.profiles[i]? = p.screens.profiles[i]? ∧ ∀ c ∈ cs, c.pair ≠ (u, v) := by
  obtain ⟨page, hp, -⟩ := h.page
  constructor
  · rcases hr.profile hp with ⟨b, rfl, _⟩ | ⟨_, hi⟩
    · exact absurd rfl (ha b)
    · exact hi.trans hp.symm
  · intro c hc he
    obtain ⟨b, rfl⟩ := hf.left _ _ _ rfl hr c hc he
    exact ha b rfl

theorem Tapping.user {p : App Paused} (h : Tapping i u v p) (hf : FromPage i u v p (.user a))
    (hr : p.screens.React p.store a sc cs) :
    Tapping i u v { p with screens := sc, calls := p.calls ++ cs.map (launch paused p.store a) } := by
  have hc : (∃ page ∈ sc.profiles[i]?,
        page.currentUser = u ∧ page.uid = v ∧ page.isFollowing = false) ∧
      ∀ c ∈ cs, c.pair = (u, v) → ∃ b, c = setting b u v := by
    by_cases ha : ∃ b, a = .press i b
    case pos =>
      obtain ⟨b, rfl⟩ := ha
      have ⟨hp, hc⟩ := h.press hr
      exact ⟨hp, fun c hm _ => ⟨_, by simpa [hc] using hm⟩⟩
    case neg =>
      have ⟨hp, hc⟩ := h.no_press hf hr (not_exists.mp ha)
      exact ⟨hp ▸ h.page, fun c hm he => absurd he (hc c hm)⟩
  refine ⟨h.sound.step (.user hr), h.other, h.requests, hc.left, fun l hl he => ?_⟩
  rcases List.mem_append.mp hl with hl | hl
  · exact h.calls l hl he
  · obtain ⟨c, hm, rfl⟩ := List.mem_map.mp hl
    obtain ⟨b, rfl⟩ := hc.right c hm he
    exact ⟨⟨b, rfl⟩, (setting_paused b u v).left⟩

theorem Tapping.user_effect {p : App Paused} (h : Tapping i u v p)
    (hf : FromPage i u v p (.user a)) (hr : p.screens.React p.store a sc cs)
    (ha : ∀ b, a ≠ .press i b) : Effect i u v p (.user a)
      { p with screens := sc, calls := p.calls ++ cs.map (launch paused p.store a) } := by
  have ⟨hp, hc⟩ := h.no_press hf hr ha
  constructor
  case requestSent => simp [App.requestSent, hp]
  case of_inFlight =>
    rintro b ⟨j, l, hj, hl, hn⟩
    rcases List.mem_append.mp (List.mem_of_getElem? hj) with hm | hm
    · obtain ⟨m, hm⟩ := List.mem_iff_getElem?.mp hm
      exact ⟨m, l, hm, hl, hn⟩
    · obtain ⟨c, hm', rfl⟩ := List.mem_map.mp hm
      obtain rfl : c = setting b u v := hl
      exact absurd (setting_pair b u v) (hc _ hm')
  case inFlight =>
    rintro b ⟨j, l, hj, hl, hn⟩
    exact .inl ⟨j, l, by rw [List.getElem?_append_left (by grind), hj], hl, hn⟩
  case requested => exact .inl rfl
  case updates =>
    rintro b ⟨_, _, _, he, _⟩
    cases he

theorem Tapping.resume {p : App Paused} {q : OtherUserProfile} (h : Tapping i u v p)
    (hj : p.calls[j]? = some l) (hx : l.awaitedBy = some x) (hq : p.screens.profiles[x]? = some q)
    (hd : Paused.machine.finished l.thread) :
    Tapping i u v { p with
        screens.profiles := p.screens.profiles.set x q.unfollowed
        calls := p.calls.set j { l with awaitedBy := none } } ∧
      Effect i u v p (.resume j) { p with
        screens.profiles := p.screens.profiles.set x q.unfollowed
        calls := p.calls.set j { l with awaitedBy := none } } := by
  obtain ⟨page, hp, hu, hv, hf⟩ := h.page
  have hi := Screens.profiles_unfollowed hq hp
  have hd : l.thread.control = .returned := l.thread.finished_iff.mp hd
  constructor
  · refine ⟨h.sound.step (.resume hj hx hq (l.thread.finished_iff.mpr hd)), h.other, h.requests,
      ⟨_, hi, ?_⟩, List.forall_mem_set h.calls <| h.calls l (List.mem_of_getElem? hj)⟩
    split <;> simp [OtherUserProfile.unfollowed, hu, hv, hf]
  · refine ⟨?_, fun hb => ?_, fun hb => .inl ?_, .inl rfl, ?_⟩
    · rw [requestSent_eq hp, requestSent_eq hi]
      split <;> rfl
    · exact (of_inFlight_set hb).resolve_right fun hb => hb.right hd
    · exact (inFlight_set hj hb).resolve_right fun hb => hb.right hd
    · rintro b ⟨_, _, _, he, _⟩
      cases he

theorem Tapping.step {p p' : App Paused} (h : Tapping i u v p) (hf : FromPage i u v p e)
    (hs : Step Paused.machine paused p e p') :
    Tapping i u v p' ∧ ((∀ b, e ≠ .user (.press i b)) → Effect i u v p e p') := by
  cases hs
  case user hr => exact ⟨h.user hf hr, fun he => h.user_effect hf hr fun b hb => he b (hb ▸ rfl)⟩
  case call hj hm =>
    have ⟨ht, he⟩ := h.call hj hm fun ho => hf.right _ _ (ho ▸ rfl) hj
    exact ⟨ht, fun _ => he⟩
  case resume hj hx hp hd =>
    have ⟨ht, he⟩ := h.resume hj hx hp hd
    exact ⟨ht, fun _ => he⟩

-- The requests agree with the flag, or a call that sets them right is in flight.
def Agreeing (i : Nat) (u v : Uid) (p : App Paused) : Prop :=
  p.requested u v = p.requestSent i ∨ InFlight (p.requestSent i) u v p.calls

-- The requests disagree with the flag, and no call that sets them right is in flight.
def Disagreeing (i : Nat) (u v : Uid) (p : App Paused) : Prop :=
  p.requested u v = !p.requestSent i ∧ ¬InFlight (p.requestSent i) u v p.calls

theorem inFlight_of_updates {p : App Paused} (h : Updates b u v (p.map Paused.code) e) :
    InFlight b u v p.calls := by
  obtain ⟨j, l, fields, rfl, hj, hc, hu⟩ := h
  simp only [map_calls, List.getElem?_map, Option.map_eq_some_iff] at hj
  obtain ⟨l, hj, rfl⟩ := hj
  obtain ⟨f, value, hu, -⟩ := Paused.pending_code.mp hu
  refine ⟨j, l, hj, hc, fun hr => ?_⟩
  simp [hr, Control.update] at hu

theorem contradicts_iff {p : App Paused} : Contradicts i u v (p.map Paused.code) e ↔
    Updates (!p.requestSent i) u v (p.map Paused.code) e ∧
      ¬InFlight (p.requestSent i) u v p.calls := by
  refine and_congr_right fun _ => ?_
  simp only [map_calls, List.mem_map, forall_exists_index, and_imp, forall_apply_eq_imp_iff₂]
  constructor
  · rintro h ⟨j, l, hj, hc, hn⟩
    exact hn (l.thread.finished_code.mp (h l (List.mem_of_getElem? hj) hc))
  · intro h l hl hc
    obtain ⟨j, hj⟩ := List.mem_iff_getElem?.mp hl
    refine l.thread.finished_code.mpr ?_
    by_contra hn
    exact h ⟨j, l, hj, hc, hn⟩

theorem Agreeing.step {p p' : App Paused} (h : Agreeing i u v p) (he : Effect i u v p e p')
    (hc : ¬Contradicts i u v (p.map Paused.code) e) : Agreeing i u v p' := by
  simp only [Agreeing, he.requestSent]
  have hf : InFlight (p.requestSent i) u v p.calls →
      p'.requested u v = p.requestSent i ∨ InFlight (p.requestSent i) u v p'.calls :=
    fun hf => (he.inFlight hf).symm
  rcases he.requested with hr | ⟨b, hu⟩
  · exact h.elim (fun h => .inl (hr.trans h)) hf
  · by_cases hb : b = p.requestSent i
    case pos => exact .inl (hb ▸ he.updates hu)
    case neg =>
      refine hf ?_
      by_contra hn
      exact hc (contradicts_iff.mpr ⟨Bool.eq_not_of_ne hb ▸ hu, hn⟩)

theorem Disagreeing.step {p p' : App Paused} (h : Disagreeing i u v p) (he : Effect i u v p e p') :
    Disagreeing i u v p' := by
  have hn : ¬InFlight (p'.requestSent i) u v p'.calls := fun hf =>
    h.right (he.requestSent ▸ he.of_inFlight hf)
  refine ⟨?_, hn⟩
  rw [he.requestSent]
  rcases he.requested with hr | ⟨b, hu⟩
  · exact hr.trans h.left
  · have hb : b ≠ p.requestSent i := fun hb => h.right (hb ▸ inFlight_of_updates hu)
    rw [he.updates hu, Bool.eq_not_of_ne hb]

theorem disagreeing_of_contradicts {p p' : App Paused} (he : Effect i u v p e p')
    (hc : Contradicts i u v (p.map Paused.code) e) : Disagreeing i u v p' := by
  have ⟨hu, hn⟩ := contradicts_iff.mp hc
  rw [Disagreeing, he.requestSent]
  exact ⟨he.updates hu, fun hf => hn (he.of_inFlight hf)⟩

theorem fromPage_map {p : App Paused} (h : FromPage i u v (p.map Paused.code) e) :
    FromPage i u v p e :=
  ⟨h.left, fun j l he hj => h.right j (l.map Paused.code) he (by simp [hj])⟩

-- The taps are over: What is left are the calls that have been launched.
theorem Tapping.agreeing {p p' : App Paused} (h : Tapping i u v p) (ha : Agreeing i u v p)
    (r : Run (Guarded (fun p e => FromPage i u v (p.map Paused.code) e ∧
      ¬Contradicts i u v (p.map Paused.code) e) (Fires pausedStep)) p es p')
    (hn : ∀ b, .user (.press i b) ∉ es) : Agreeing i u v p' := by
  induction r
  case refl => exact ha
  case step p₁ e p₂ es p₃ hs _ hi =>
    have ⟨ht, he⟩ := h.step (fromPage_map hs.left.left) (stepOf_iff.mp hs.right)
    have hx := he fun b hb => hn b (by simp [hb])
    exact hi ht (ha.step hx hs.left.right) fun b hb => hn b (by simp [hb])

theorem Tapping.disagreeing {p p' : App Paused} (h : Tapping i u v p)
    (r : Run (Guarded (FromPage i u v ∘ map Paused.code) (Fires pausedStep)) p es p')
    (hn : ∀ b, .user (.press i b) ∉ es) : (Disagreeing i u v p → Disagreeing i u v p') ∧
      (Run (Guarded (fun p e => ¬Contradicts i u v (p.map Paused.code) e) (Fires pausedStep)) p es p' ∨
        Disagreeing i u v p') := by
  induction r
  case refl => exact ⟨id, .inl .refl⟩
  case step p₁ e p₂ es p₃ hs _ hi =>
    have ⟨ht, hx⟩ := h.step (fromPage_map hs.left) (stepOf_iff.mp hs.right)
    have he := hx fun b hb => hn b (by simp [hb])
    have ⟨hd, hr⟩ := hi ht fun b hb => hn b (by simp [hb])
    refine ⟨fun h => hd (h.step he), ?_⟩
    by_cases hc : Contradicts i u v (p₁.map Paused.code) e
    case pos => exact .inr (hd (disagreeing_of_contradicts he hc))
    case neg => exact hr.imp_left fun r => .step ⟨hc, hs.right⟩ r

theorem tapping_of_opened {s : Users} {sc : Screens} (h : Opened i u v (⟨s, sc, []⟩ : App Paused)) :
    Tapping i u v ⟨s, sc, []⟩ ∧ Agreeing i u v ⟨s, sc, []⟩ := by
  obtain ⟨-, ⟨page, hp, hu, hv, hf, hq⟩, xs, hx, hn⟩ := h
  have hr : (pairView u v s).requests = .list false := by
    simp only [pairView] at hx ⊢
    simp [hx, Listed.of, hn]
  have hm : requested u v (⟨s, sc, []⟩ : App Paused) = false := by
    simp [requested, hr, Listed.isMember]
  constructor
  · refine ⟨by simp [Sound], isSome_of_field hx, by rw [hm]; exact hr, ⟨page, hp, hu, hv, hf⟩, ?_⟩
    simp
  · exact .inl (by rw [hm, requestSent_eq hp, hq])

-- A tap launches the call that sets the requests right.
theorem agreeing_of_press {p p' : App Paused} (h : Tapping i u v p)
    (hs : Step Paused.machine paused p (.user (.press i b)) p') : Agreeing i u v p' := by
  cases hs
  case user hr =>
    have ⟨_, hc⟩ := h.press hr
    subst hc
    refine .inr ⟨p.calls.length, _, List.getElem?_concat_length .., rfl, ?_⟩
    exact (setting_paused _ u v).right

theorem Tapping.run_press {p p' : App Paused} (h : Tapping i u v p ∧ Agreeing i u v p)
    (r : Run (Guarded (FromPage i u v ∘ map Paused.code) (Fires pausedStep)) p es p')
    (he : es = [] ∨ ∃ es' b, es = es' ++ [.user (.press i b)]) :
    Tapping i u v p' ∧ Agreeing i u v p' := by
  rcases he with rfl | ⟨es', b, rfl⟩
  · exact r.nil_eq ▸ h
  · have ⟨p₁, r₁, r₂⟩ := r.split
    have h₁ : Tapping i u v p₁ := r₁.invariant
      (fun h hs => (h.step (fromPage_map hs.left) (stepOf_iff.mp hs.right)).left) h.left
    cases r₂
    case step hs r₂ =>
      obtain rfl := r₂.nil_eq
      have hs' := stepOf_iff.mp hs.right
      exact ⟨(h₁.step (fromPage_map hs.left) hs').left, agreeing_of_press h₁ hs'⟩

end

-- `es₁` ends with the last tap on the page.
theorem request_agrees_iff_of_run {p₀ p₁ p₂ : App (Task Uid Unit)} (h : Opened i u v p₀)
    (r₁ : Run (Guarded (FromPage i u v) (Fires step)) p₀ es₁ p₁)
    (r₂ : Run (Guarded (FromPage i u v) (Fires step)) p₁ es₂ p₂)
    (h₁ : es₁ = [] ∨ ∃ es b, es₁ = es ++ [.user (.press i b)])
    (h₂ : ∀ b, .user (.press i b) ∉ es₂)
    (hd : ∀ l ∈ p₂.calls, l.call.pair = (u, v) → Call.machine.finished l.thread) :
    (u ∈ elements p₂.store v "requests" ↔ p₂.requestSent i) ↔
      Run (Guarded (fun p e => ¬Contradicts i u v p e) (Fires step)) p₁ es₂ p₂ := by
  obtain ⟨s, sc, calls⟩ := p₀
  obtain rfl : calls = [] := h.calls
  obtain ⟨q₁, rq₁, rfl⟩ := (run_guarded_map_iff (s := ⟨s, sc, []⟩)).mp r₁
  obtain ⟨q₂, rq₂, rfl⟩ := run_guarded_map_iff.mp r₂
  have ⟨ht, ha⟩ := Tapping.run_press (tapping_of_opened ⟨rfl, h.page, h.requests⟩) rq₁ h₁
  have hn (b : Bool) : ¬InFlight b u v q₂.calls := by
    rintro ⟨j, l, hj, hc, hn⟩
    refine hn (l.thread.finished_code.mp ?_)
    exact hd (l.map Paused.code) (by simpa using ⟨l, List.mem_of_getElem? hj, rfl⟩)
      (hc ▸ setting_pair b u v)
  have hm : (u ∈ elements q₂.store v "requests" ↔ q₂.requestSent i) ↔
      q₂.requested u v = q₂.requestSent i := by
    rw [←requests_isMember, ←Bool.eq_iff_iff]
    rfl
  rw [map_store, show (q₂.map Paused.code).requestSent i = q₂.requestSent i from rfl, hm]
  constructor
  · intro he
    rcases (ht.disagreeing rq₂ h₂).right with r | hd
    · exact run_guarded_map_iff.mpr ⟨q₂, r, rfl⟩
    · exact absurd (he.symm.trans hd.left) (by simp)
  · intro r
    obtain ⟨q, rq, -⟩ := run_guarded_map_iff.mp (Fires.run_guarded_and r₂ r)
    obtain rfl := Fires.run_deterministic rq.unguard rq₂.unguard
    exact (ht.agreeing ha rq h₂).resolve_right (hn _)

-- Taps on the page `i`, and steps that do not fail.
def isFromPage (i : Nat) : Event → Bool
  | .user (.press j _) => i = j
  | .call _ ok         => ok
  | _                  => false

theorem fromPage_of_isFromPage (h : isFromPage i e) (p : App θ) : FromPage i u v p e := by
  constructor
  · rintro a _ _ rfl _ _ _ _
    cases a <;> simp [isFromPage] at h ⊢
    exact h.symm
  · rintro _ _ rfl
    simp [isFromPage] at h

-- Alice has opened the profile of Bob.
def openedProfile : App (Task Uid Unit) where
  store   := registered ["alice", "bob"]
  screens := ⟨[.getData (some (registered ["alice", "bob"] "bob", 0)) (.initial "alice" "bob")], []⟩
  calls   := []

theorem opened_openedProfile : Opened 0 "alice" "bob" openedProfile :=
  ⟨rfl, ⟨_, rfl, by decide⟩, ⟨[], rfl, by decide⟩⟩

theorem run_fromPage_of_exec (es₁ es₂ : List Event) (q : App (Task Uid Unit) → Bool)
    (hi : (es₁ ++ es₂).all (isFromPage 0))
    (h : (Fires.exec step openedProfile (es₁ ++ es₂)).any fun p =>
      p.calls.all (fun l => Call.machine.finished l.thread) && q p) :
    ∃ p₁ p₂, Run (Guarded (FromPage 0 "alice" "bob") (Fires step)) openedProfile es₁ p₁ ∧
      Run (Guarded (FromPage 0 "alice" "bob") (Fires step)) p₁ es₂ p₂ ∧
      (∀ l ∈ p₂.calls, l.call.pair = ("alice", "bob") → Call.machine.finished l.thread) ∧ q p₂ := by
  obtain ⟨p₂, r, h⟩ := Fires.run_of_exec step openedProfile (es₁ ++ es₂) _ h
  simp only [Bool.and_eq_true, List.all_eq_true] at h hi
  obtain ⟨p₁, r₁, r₂⟩ := (r.guard hi).split
  refine ⟨p₁, p₂, r₁.mono fun h => ?_, r₂.mono fun h => ?_, fun l hl _ => h.left l hl, h.right⟩
  all_goals exact ⟨fromPage_of_isFromPage h.left _, h.right⟩

-- Alice requests to follow Bob, and withdraws the request.
theorem request_agrees_iff_of_withdrawal : ∃ p₁ p₂,
    Run (Guarded (FromPage 0 "alice" "bob") (Fires step)) openedProfile [.user (.press 0 .follow),
      .call 0 true, .call 0 true, .user (.press 0 .requestSent)] p₁ ∧
    Run (Guarded (fun p e => ¬Contradicts 0 "alice" "bob" p e) (Fires step)) p₁
      [.call 1 true, .call 1 true] p₂ := by
  have ⟨p₁, p₂, r₁, r₂, hd, hq⟩ := run_fromPage_of_exec
    [.user (.press 0 .follow), .call 0 true, .call 0 true, .user (.press 0 .requestSent)]
    [.call 1 true, .call 1 true]
    (fun p => "alice" ∈ elements p.store "bob" "requests" ↔ p.requestSent 0)
    (by decide) (by decide)
  have h := request_agrees_iff_of_run opened_openedProfile r₁ r₂
    (.inr ⟨[_, _, _], _, rfl⟩) (by simp) hd
  exact ⟨p₁, p₂, r₁, h.mp (of_decide_eq_true hq)⟩

-- The withdrawal finds no request, since the request is stored only after that.
theorem not_request_agrees_of_lateRequest : ∃ p₁ p₂,
    Opened 0 "alice" "bob" openedProfile ∧
    Run (Guarded (FromPage 0 "alice" "bob") (Fires step)) openedProfile [.user (.press 0 .follow),
      .call 0 true, .user (.press 0 .requestSent)] p₁ ∧
    Run (Guarded (FromPage 0 "alice" "bob") (Fires step)) p₁ [.call 1 true, .call 0 true] p₂ ∧
    (∀ l ∈ p₂.calls, l.call.pair = ("alice", "bob") → Call.machine.finished l.thread) ∧
    ¬("alice" ∈ elements p₂.store "bob" "requests" ↔ p₂.requestSent 0) := by
  have ⟨p₁, p₂, r₁, r₂, hd, hq⟩ := run_fromPage_of_exec
    [.user (.press 0 .follow), .call 0 true, .user (.press 0 .requestSent)]
    [.call 1 true, .call 0 true]
    (fun p => ¬("alice" ∈ elements p.store "bob" "requests" ↔ p.requestSent 0))
    (by decide) (by decide)
  exact ⟨p₁, p₂, opened_openedProfile, r₁, r₂, hd, of_decide_eq_true hq⟩

end App
