import FeelingsOverflow.Screens.Sound

open Firestore FirebaseMethods Execution Call

-- A call that was launched by accepting a request which was stored at that time.
def Launched.consented (l : Launched θ) : Bool :=
  l.requested && l.action matches .accept ..

namespace App

-- Where a launched call comes from: It was launched before the step, or it is launched by it.
theorem Step.launched {M : Machine Users θ} {p p' : App θ} (hs : Step M start p e p')
    (hl : p'.calls[i]? = some l) :
    (∃ l₀, p.calls[i]? = some l₀ ∧ l₀.call = l.call ∧ l₀.action = l.action ∧
      l₀.requested = l.requested) ∨
    (∃ a sc cs j, e = .user a ∧ p.screens.React p.store a sc cs ∧ cs[j]? = some l.call ∧
      i = p.calls.length + j ∧ l.action = a ∧
      (l.requested ↔ l.call.pair.1 ∈ elements p.store l.call.pair.2 "requests")) := by
  cases hs
  case user a sc cs hr =>
    by_cases hi : i < p.calls.length
    case pos =>
      rw [List.getElem?_append_left hi] at hl
      exact .inl ⟨l, hl, rfl, rfl, rfl⟩
    case neg =>
      rw [List.getElem?_append_right (by omega), List.getElem?_map, Option.map_eq_some_iff] at hl
      obtain ⟨c, hc, rfl⟩ := hl
      exact .inr ⟨a, sc, cs, _, rfl, hr, hc, by omega, rfl, by simp [launch]⟩
  case call j l₀ ok t st hj hm =>
    by_cases hi : j = i
    case pos =>
      subst hi
      rw [List.getElem?_set_self (List.getElem?_eq_some_iff.mp hj).choose] at hl
      obtain rfl := Option.some.inj hl
      exact .inl ⟨l₀, hj, rfl, rfl, rfl⟩
    case neg => exact .inl ⟨l, by rwa [List.getElem?_set_ne hi] at hl, rfl, rfl, rfl⟩
  case resume j l₀ x page hj hx hp hf =>
    by_cases hi : j = i
    case pos =>
      subst hi
      rw [List.getElem?_set_self (List.getElem?_eq_some_iff.mp hj).choose] at hl
      obtain rfl := Option.some.inj hl
      exact .inl ⟨l₀, hj, rfl, rfl, rfl⟩
    case neg => exact .inl ⟨l, by rwa [List.getElem?_set_ne hi] at hl, rfl, rfl, rfl⟩

theorem launched_of_run {M : Machine Users θ} {p : App θ}
    (r : Run (Fires (stepOf M start)) (initial s) es p) (hl : p.calls[i]? = some l) :
    ∃ es₁ es₂ p₁ sc cs j, es = es₁ ++ .user l.action :: es₂ ∧
      Run (Fires (stepOf M start)) (initial s) es₁ p₁ ∧
      p₁.screens.React p₁.store l.action sc cs ∧ cs[j]? = some l.call ∧ i = p₁.calls.length + j ∧
      (l.requested ↔ l.call.pair.1 ∈ elements p₁.store l.call.pair.2 "requests") := by
  induction es using List.reverseRecOn generalizing p l
  case nil =>
    obtain rfl := r.nil_eq
    simp [initial] at hl
  case append_singleton es e hi =>
    obtain ⟨p₁, r₁, r₂⟩ := r.split
    cases r₂
    case step hs r₂ =>
      obtain rfl := r₂.nil_eq
      rcases Step.launched (stepOf_iff.mp hs) hl with ⟨l₀, hl₀, hc, ha, hq⟩ |
        ⟨a, sc, cs, j, rfl, hr, hc, hi, rfl, hq⟩
      · obtain ⟨es₁, es₂, p₂, sc, cs, j, he, r, hr⟩ := hi r₁ hl₀
        simp only [hc, ha, hq] at he hr
        exact ⟨es₁, es₂ ++ [e], p₂, sc, cs, j, by simp [he], r, hr⟩
      · exact ⟨es, [], p₁, sc, cs, j, rfl, r₁, hr, hc, hi, hq⟩

-- When a call of `followUser` without consent takes its `get`, it finds the follow it is to remove.
def FindsFollow (p : App (Task Uid Unit)) (e : Event) : Prop :=
  ∀ i l u v, e = .call i true → p.calls[i]? = some l → l.call = .followUser u v →
    l.thread = l.call.code → ¬l.consented → v ∈ elements p.store u "following"

-- The event `e`, which follows the run of `es` to `p`, is a step of a call that was launched when `v`
-- accepted the request of `u` while it was stored.
def ByConsent (s : Users) (es : List Event) (p : App (Task Uid Unit)) (e : Event) (u v : Uid) : Prop :=
  ∃ es₁ es₂ k p₁ tab l ok, es = es₁ ++ .user (.accept k u) :: es₂ ∧
    Run (Fires step) (initial s) es₁ p₁ ∧ p₁.screens.searchTabs[k]? = some tab ∧
    tab.currentUserUid = v ∧ u ∈ elements p₁.store v "requests" ∧ e = .call p₁.calls.length ok ∧
    p.calls[p₁.calls.length]? = some l ∧ l.call = .followUser u v

-- Only calls with consent have decided to make their first user follow the second one.
def Consenting (p : App Paused) : Prop :=
  ∀ l ∈ p.calls, l.thread.control = .addFollower → l.consented

theorem resume_eq_addFollower {c : Control} (hg : c.get u v = some i)
    (h : c.resume u v data = .addFollower) :
    c = .followUser ∧ i = u ∧ v ∉ coercedArray (data "following") := by
  cases c <;> simp only [Control.get, Option.some.injEq, reduceCtorEq] at hg
  case followUser =>
    refine ⟨rfl, hg.symm, ?_⟩
    simp only [Control.resume] at h
    split at h
    case h_1 hd => simpa [hd] using h
    case h_2    => simp at h
  all_goals
    simp only [Control.resume] at h
    split at h
    · simp at h
    · repeat' split at h
      all_goals simp at h

theorem call_eq_followUser {l : Launched Paused} (h : l.Sound s) (ht : l.thread = ⟨u, v, c⟩)
    (hc : c = .followUser ∨ c = .addFollower) : l.call = .followUser u v := by
  have hp := h.pair
  have hx := h.control
  rw [ht] at hp hx
  cases hl : l.call <;> simp [hl, Call.controls, Paused.pair, Call.pair] at hp hx
  case followUser => simp [hp]
  all_goals rcases hc with rfl | rfl <;> simp at hx

theorem Consenting.step {p p' : App Paused} (h : p.Consenting) (hs : p.Sound)
    (hf : FindsFollow (p.map Paused.code) e) (hp : Step Paused.machine paused p e p') :
    p'.Consenting := by
  let P (l : Launched Paused) (_ : Users) := l.thread.control = .addFollower → l.consented
  refine hp.forall_calls (P := P) h ?_ ?_ fun {l} => h l
  case refine_1 =>
    intro a _ _ c _ _ hc
    cases c <;> simp [launch, paused] at hc
  case refine_2 =>
    intro i l ok t st he hi hm
    refine ⟨fun ht => ?_, fun _ _ h => h⟩
    cases Paused.step_cases hm
    case get data hg ho hd =>
      obtain ⟨hc, rfl, hn⟩ := resume_eq_addFollower hg ht
      by_contra hl
      subst he ho
      have ht : l.thread = ⟨l.thread.uid, l.thread.other, .followUser⟩ := by rw [←hc]
      have hu := call_eq_followUser (hs l (List.mem_of_getElem? hi)) ht (.inl rfl)
      have hm := hf i (l.map Paused.code) _ _ rfl (by simp [hi]) hu
        (by simp only [Launched.map, hu]; rw [ht]; rfl) hl
      exact hn (by simpa [elements, field, hd] using hm)
    case update hu _ _ =>
      cases hc : l.thread.control <;> simp [hc, Control.next] at ht
    case fail => simp at ht

-- A user is added to the followers of another one only by an update that adds them.
theorem addFollower_of_step {p p' : App Paused} (h : p.Sound)
    (hs : Step Paused.machine paused p e p') (hn : u ∉ elements p.store v "followers")
    (hm : u ∈ elements p'.store v "followers") :
    ∃ i ok l, e = .call i ok ∧ p.calls[i]? = some l ∧ l.thread = ⟨u, v, .addFollower⟩ := by
  cases hs
  case call i l ok t st hi hs =>
    refine ⟨i, ok, l, rfl, hi, ?_⟩
    have hl := (h l (List.mem_of_getElem? hi)).sound
    rw [←followers_iff] at hn hm
    by_cases hp : l.thread.pair = (u, v)
    case neg => exact absurd (pairView.other_step hl hp hs ▸ hm) hn
    case pos =>
      obtain ⟨rfl, rfl⟩ := Prod.mk.inj hp
      rcases PairView.step_cases (pairView.own_step hs) with ⟨_, _, _, hw⟩ | ⟨_, _, hw⟩ <;>
        rw [hw] at hm
      · have hc : l.thread.control = .addFollower := by
          cases hc : l.thread.control <;> simp [hc, PairView.apply, hn] at hm ⊢
        rw [←hc]
      · exact absurd hm hn
  all_goals exact absurd hm hn

theorem followers_by_consent (r : Run (Guarded FindsFollow (Fires step)) (initial s) es p)
    (hs : step p e = some p') (hn : u ∉ elements p.store v "followers")
    (hm : u ∈ elements p'.store v "followers") : ByConsent s es p e u v := by
  obtain ⟨q, rq, rfl⟩ := run_guarded_map_iff (s := initial s) |>.mp r
  rw [step_map] at hs
  obtain ⟨q', hq, rfl⟩ := Option.map_eq_some_iff.mp hs
  have h : q.Sound ∧ q.Consenting := by
    refine rq.invariant (I := fun q => q.Sound ∧ q.Consenting) (fun h hs => ?_)
      ⟨sound_initial s, by simp [Consenting, initial]⟩
    have hs' := stepOf_iff.mp hs.right
    exact ⟨h.left.step hs', h.right.step h.left hs.left hs'⟩
  obtain ⟨i, ok, l, rfl, hi, ht⟩ := addFollower_of_step h.left (stepOf_iff.mp hq) hn hm
  have hc := h.right l (List.mem_of_getElem? hi) (by rw [ht])
  have hu := call_eq_followUser (h.left l (List.mem_of_getElem? hi)) ht (.inr rfl)
  obtain ⟨es₁, es₂, p₁, sc, cs, j, he, r₁, hr, hj, hi', hq'⟩ :=
    launched_of_run r.unguard (l := l.map Paused.code) (i := i) (by simp [hi])
  simp only [Launched.consented, Bool.and_eq_true] at hc
  simp only [Launched.map, hu, pair, hc.left, true_iff] at he hr hj hq'
  obtain ⟨k, x, ha⟩ : ∃ k x, l.action = .accept k x := by
    cases ha : l.action <;> simp [ha] at hc ⊢
  rw [ha] at hr he
  cases hr
  case accept tab hk hx =>
    obtain ⟨rfl, rfl, rfl⟩ : j = 0 ∧ x = u ∧ tab.currentUserUid = v := by
      rcases j with _ | _ | j <;> simp_all [SearchTab.accept]
    subst hi'
    exact ⟨es₁, es₂, k, p₁, tab, l.map Paused.code, ok, he, r₁, hk, rfl, hq', rfl,
      by simpa using ⟨l, hi, rfl⟩, hu⟩

-- Only calls with consent take their `get`.
def consents (p : App (Task Uid Unit)) : Event → Bool
  | .call i _ => p.calls[i]?.all fun l => l.consented || !(l.call matches .followUser ..)
  | _         => true

theorem findsFollow_of_consents (h : consents p e) : FindsFollow p e := by
  rintro i l u v rfl hl hu _ hc
  simp [consents, hl, hu, hc] at h

-- Alice requests to follow Bob, who accepts.
def acceptedRequest : List Event := [
  .user (.openProfile "alice" "bob" (some 0)), .user (.press 0 .follow), .call 0 true, .call 0 true,
  .user (.openSearchTab "bob" true), .user (.accept 0 "alice"), .call 1 true
]

theorem followers_by_consent_of_acceptedRequest : ∃ p p',
    Run (Guarded FindsFollow (Fires step)) (initial (registered ["alice", "bob"]))
      acceptedRequest p ∧
    step p (.call 1 true) = some p' ∧
    ByConsent (registered ["alice", "bob"]) acceptedRequest p (.call 1 true) "alice" "bob" := by
  have ⟨p, r, h⟩ := Fires.run_guarded_of_exec step (fun p e => consents p e)
    (initial (registered ["alice", "bob"])) acceptedRequest
    (fun p => "alice" ∉ elements p.store "bob" "followers" ∧
      (step p (.call 1 true)).any fun p' => "alice" ∈ elements p'.store "bob" "followers")
    (by decide)
  simp only [Option.any_eq_true, decide_eq_true_eq] at h
  obtain ⟨hn, p', hs, hm⟩ := h
  have r' := r.mono fun h => And.imp_left findsFollow_of_consents h
  exact ⟨p, p', r', hs, followers_by_consent r' hs hn hm⟩

-- Bob accepts the request of Alice, which is still shown to him, after she has withdrawn it.
def withdrawnRequest : List Event := [
  .user (.openProfile "alice" "bob" (some 0)), .user (.press 0 .follow), .call 0 true, .call 0 true,
  .user (.openSearchTab "bob" true), .user (.press 0 .requestSent), .call 1 true, .call 1 true,
  .user (.accept 0 "alice"), .call 2 true
]

theorem not_by_consent_of_withdrawnRequest : ∃ p p',
    Run (Fires step) (initial (registered ["alice", "bob"])) withdrawnRequest p ∧
    step p (.call 2 true) = some p' ∧
    "alice" ∉ elements p.store "bob" "followers" ∧ "alice" ∈ elements p'.store "bob" "followers" ∧
    ¬ByConsent (registered ["alice", "bob"]) withdrawnRequest p (.call 2 true) "alice" "bob" := by
  have ⟨p, r, h⟩ := Fires.run_of_exec step (initial (registered ["alice", "bob"])) withdrawnRequest
    (fun p => "alice" ∉ elements p.store "bob" "followers" ∧
      (step p (.call 2 true)).any fun p' => "alice" ∈ elements p'.store "bob" "followers")
    (by decide)
  simp only [Option.any_eq_true, decide_eq_true_eq] at h
  obtain ⟨hn, p', hs, hm⟩ := h
  refine ⟨p, p', r, hs, hn, hm, ?_⟩
  rintro ⟨es₁, es₂, k, p₁, tab, l, ok, he, r₁, -, -, hq, -⟩
  obtain rfl : k = 0 := by
    have hk : Event.user (.accept k "alice") ∈ withdrawnRequest := by simp [he]
    simpa [withdrawnRequest] using hk
  have hw : ∀ n < withdrawnRequest.length, withdrawnRequest[n]? = some (.user (.accept 0 "alice")) →
      ¬(Fires.exec step (initial (registered ["alice", "bob"])) (withdrawnRequest.take n)).any
        fun p => "alice" ∈ elements p.store "bob" "requests" := by
    decide
  refine hw es₁.length (by simp [he]) (by simp [he]) ?_
  rw [he, List.take_left', Fires.run_iff_exec.mp r₁]
  · simpa using hq
  · rfl

end App
