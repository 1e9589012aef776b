import FeelingsOverflow.Screens.FeedSession
import FeelingsOverflow.Screens.Theorems.FeedOrder
import FeelingsOverflow.Screens.Theorems.JournalHistory

open Execution Firestore
open Journal (plainText)

namespace HomeTab

variable {δ : Type} {json : JsonCoding δ} {followings : List Uid} {offset now now' : Int} {p : Post}

theorem combineLatest_eq_some_iff
    {latest : (i : Fin followings.length) → Option (QuerySnapshot (followings.get i))}
    {l : (i : Fin followings.length) → QuerySnapshot (followings.get i)} :
    combineLatest latest = some l ↔ ∀ i, latest i = some (l i) := by
  rw [combineLatest]
  split
  case isTrue h =>
    rw [Option.some.injEq, funext_iff]
    exact forall_congr' fun i => by rw [←Option.some_inj, Option.some_get]
  case isFalse h =>
    simp only [reduceCtorEq, false_iff]
    exact fun hl => h fun i => Option.isSome_of_eq_some (hl i)

theorem combineLatest_eq_none_iff
    {latest : (i : Fin followings.length) → Option (QuerySnapshot (followings.get i))} :
    combineLatest latest = none ↔ ∃ i, latest i = none := by
  simp [combineLatest]

theorem Listed.step (h : Fires (Journal.step json) j e j') (hp : Listed j.posts p) : Listed j'.posts p :=
  ⟨Journal.step_posts h |>.mpr <| .inr hp.left, hp.right⟩

-- Bob has posted a card at noon.
def bobsCard : Post where
  user := "bob"
  id   := "card"
  data := FirebaseMethods.postCard (.string "text") "backgroundPastel" "bob" 0 noon noon

def bobPosted : Journal where
  personalDiaries _ _ := none
  posts               := Journal.write (fun _ _ => none) "bob" "card" (some bobsCard.data)
  opened              := []

theorem run_bobPosted : Run (Fires (Journal.step plainText)) .empty
    [.postCard "bob" "card" "text" "backgroundPastel" 0 noon noon] bobPosted :=
  .single rfl

theorem listed_bobPosted_iff : Listed bobPosted.posts p ↔ p = bobsCard := by
  obtain ⟨user, x, data⟩ := p
  simp only [Listed, bobPosted, Journal.write_apply]
  constructor
  · intro ⟨h, _⟩
    split at h
    case isFalse   => cases h
    case isTrue he =>
      obtain ⟨rfl, rfl⟩ := Prod.mk.inj he
      obtain rfl := Option.some.inj h
      rfl
  · rintro ⟨⟩
    exact ⟨rfl, rfl⟩

def bobsPosts : QuerySnapshot "bob" where
  docs    := [bobsCard]
  user_eq := by simp [bobsCard]
  nodup   := by simp
  sorted  := by simp

theorem bobsPosts_of : bobsPosts.Of bobPosted.posts := by
  intro p
  simp only [bobsPosts, List.mem_singleton, listed_bobPosted_iff]
  constructor
  · rintro rfl
    exact ⟨rfl, rfl⟩
  · exact And.right

namespace Session

variable {s s' : Session followings} {e : SessionEvent δ followings} {es : List (SessionEvent δ followings)}

-- The streams that have emitted.
theorem latest_isSome_iff (r : Run (Step json) (loaded followings j) es s) (i : Fin followings.length) :
    (s.latest i).isSome ↔ .deliver i ∈ es := by
  refine r.history (P := fun es s => (s.latest i).isSome ↔ .deliver i ∈ es) (by simp [loaded]) ?_
  intro es s e s' _ hi he
  rw [List.mem_append, ←hi]
  cases he
  case deliver k _ _ _ =>
    by_cases hk : i = k
    case pos => subst hk; simp [onData]
    case neg => simp [onData, hk]
  all_goals simp [onError]

theorem snapshot_onData {i : Fin followings.length} {q : QuerySnapshot (followings.get i)}
    (h : combineLatest (Function.update s.latest i (some q)) = some l) :
    (s.onData i q).snapshot = .withData l := by
  simp only [onData, h, Option.elim]

-- The spinner stays until all the streams have emitted, unless an error or the end of the stream comes
-- first.
theorem waiting_iff (r : Run (Step json) (loaded followings j) es s) : s.snapshot = .waiting ↔
    (∀ i, .fail i ∉ es) ∧ .done ∉ es ∧ (followings = [] ∨ ∃ i, .deliver i ∉ es) := by
  refine r.history (P := fun es s => s.snapshot = .waiting ↔
    (∀ i, .fail i ∉ es) ∧ .done ∉ es ∧ (followings = [] ∨ ∃ i, .deliver i ∉ es)) ?_ ?_
  case refine_1 =>
    simp only [loaded, List.not_mem_nil, not_false_eq_true, implies_true, true_and, true_iff]
    cases followings
    case nil  => exact .inl rfl
    case cons => exact .inr ⟨⟨0, Nat.succ_pos _⟩, trivial⟩
  case refine_2 =>
    intro es s e s' r hi he
    have hl (i : Fin followings.length) := latest_isSome_iff (r.append (.single he)) i
    cases he
    case journal => simpa using hi
    case answer  => simpa using hi
    case done    => simp
    case fail k _ _ =>
      simp only [onError, reduceCtorEq, false_iff]
      exact fun h => h.left k (by simp)
    case deliver k q qs hq =>
      have hn : followings ≠ [] := List.ne_nil_of_length_pos <| Nat.lt_of_le_of_lt k.val.zero_le k.isLt
      simp only [onData] at hl ⊢
      cases hc : combineLatest (Function.update s.latest k (some q))
      case none =>
        have ⟨i, hi'⟩ := combineLatest_eq_none_iff.mp hc
        have hd : .deliver i ∉ es ++ [.deliver k] := fun hm => by simpa [hi'] using hl i |>.mpr hm
        have hd' : .deliver i ∉ es := fun hm => hd <| List.mem_append_left _ hm
        simp only [Option.elim, hi, List.mem_append, List.mem_singleton, reduceCtorEq, or_false]
        exact and_congr_right fun _ => and_congr_right fun _ =>
          iff_of_true (.inr ⟨i, hd'⟩) (.inr ⟨i, by simpa using hd⟩)
      case some l =>
        simp only [Option.elim, reduceCtorEq, false_iff, not_and, not_or, not_exists, hn,
          not_false_eq_true, true_and, not_not]
        intro _ _ i
        exact hl i |>.mp <| Option.isSome_of_eq_some <| combineLatest_eq_some_iff.mp hc i

-- Bob and Carol are followed, and there is no answer about Carol.
def bob : Fin ["bob", "carol"].length :=
  ⟨0, by decide⟩

theorem waiting_of_unanswered : ∃ s, Run (Step plainText) (loaded ["bob", "carol"] bobPosted)
    [.answer bob, .deliver bob] s ∧ s.snapshot = .waiting := by
  have ⟨s, r⟩ : ∃ s, Run (Step plainText) (loaded ["bob", "carol"] bobPosted)
      [.answer bob, .deliver bob] s :=
    ⟨_, .step (.answer rfl bobsPosts_of) <| .single <| .deliver rfl⟩
  refine ⟨s, r, waiting_iff r |>.mpr ⟨by simp, by simp, .inr ⟨⟨1, by decide⟩, ?_⟩⟩⟩
  simp [bob]

-- What a stream has emitted last, and what it is going to emit.
def queue (s : Session followings) (i : Fin followings.length) : List (QuerySnapshot (followings.get i)) :=
  (s.latest i).toList ++ s.inFlight i

structure Sound (json : JsonCoding δ) (s : Session followings) : Prop where
  journal    : s.journal.Sound json
  data       : ∀ l, s.snapshot = .withData l → ∀ i, s.latest i = some (l i)
  listed     : ∀ i, ∀ q ∈ s.queue i, ∀ p ∈ q.docs, Listed s.journal.posts p
  increasing : ∀ i, (s.queue i).Pairwise fun q q' => q.docs ⊆ q'.docs

theorem sound_loaded (h : j.Sound json) : Sound json (loaded followings j) where
  journal    := h
  data _     := nofun
  listed     := by simp [queue, loaded]
  increasing := by simp [queue, loaded]

-- The streams emit what is on its way to them, and nothing is lost of it.
theorem step_queue (he : Step json s e s') (i : Fin followings.length) : s'.queue i <:+ s.queue i ∨
    ∃ q, q.Of s.journal.posts ∧ s'.queue i = s.queue i ++ [q] := by
  cases he
  case journal => exact .inl List.suffix_rfl
  case fail    => exact .inl List.suffix_rfl
  case done    => exact .inl List.suffix_rfl
  case answer k q _ hq =>
    by_cases hk : i = k
    case pos => subst hk; exact .inr ⟨q, hq, by simp [queue]⟩
    case neg => exact .inl <| by simp [queue, Function.update_of_ne hk]
  case deliver k q qs hq =>
    by_cases hk : i = k
    case pos => subst hk; exact .inl <| by simp [queue, onData, hq]
    case neg => exact .inl <| by simp [queue, onData, Function.update_of_ne hk]

theorem Sound.step (h : Sound json s) (he : Step json s e s') : Sound json s' := by
  have listed (i : Fin followings.length) (q) (hq : q ∈ s'.queue i) (p) (hp : p ∈ q.docs) :
      Listed s.journal.posts p := by
    rcases step_queue he i with hs | ⟨q', ho, hs⟩
    case inl => exact h.listed i q (hs.mem hq) p hp
    case inr =>
      rw [hs, List.mem_append, List.mem_singleton] at hq
      rcases hq with hq | rfl
      · exact h.listed i q hq p hp
      · exact ho p |>.mp hp |>.right
  have increasing (i : Fin followings.length) :
      (s'.queue i).Pairwise fun q q' => q.docs ⊆ q'.docs := by
    rcases step_queue he i with hs | ⟨q', ho, hs⟩
    case inl => exact h.increasing i |>.sublist hs.sublist
    case inr =>
      rw [hs, List.pairwise_append]
      refine ⟨h.increasing i, List.pairwise_singleton .., fun q hq _ hm p hp => ?_⟩
      obtain rfl := List.mem_singleton.mp hm
      exact ho p |>.mpr ⟨q.user_eq p hp, h.listed i q hq p hp⟩
  cases he
  case journal e _ he =>
    exact ⟨h.journal.step he, h.data, fun i q hq p hp => (listed i q hq p hp).step he, increasing⟩
  case answer => exact ⟨h.journal, h.data, listed, increasing⟩
  case fail   => exact ⟨h.journal, nofun, listed, increasing⟩
  case done   => exact ⟨h.journal, nofun, listed, increasing⟩
  case deliver k q qs _ =>
    refine ⟨h.journal, fun l hl => ?_, listed, increasing⟩
    cases hc : combineLatest (Function.update s.latest k (some q))
    case some l' =>
      simp only [onData, hc, Option.elim, AsyncSnapshot.withData.injEq] at hl ⊢
      exact hl ▸ combineLatest_eq_some_iff.mp hc
    case none =>
      simp only [onData, hc, Option.elim] at hl
      have ⟨i, hi⟩ := combineLatest_eq_none_iff.mp hc
      by_cases hk : i = k
      case pos => subst hk; simp at hi
      case neg => simp [hk, h.data l hl i] at hi

-- The posts that the streams have told of.
def Known (s : Session followings) (p : Post) : Prop :=
  ∃ i q, s.latest i = some q ∧ p ∈ q.docs

theorem Sound.known (h : Sound json s) (hp : s.Known p) :
    p.user ∈ followings ∧ Listed s.journal.posts p := by
  have ⟨i, q, hl, hp⟩ := hp
  exact ⟨q.user_eq p hp ▸ List.get_mem .., h.listed i q (by simp [queue, hl]) p hp⟩

theorem Sound.mem_shown_iff (h : Sound json s) : p ∈ s.shown offset now ↔
    (∃ l, s.snapshot = .withData l) ∧ s.Known p ∧ isShown offset now p := by
  cases hs : s.snapshot
  case waiting     => simp [shown, hs, builder, Body.posts]
  case withoutData => simp [shown, hs, builder, Body.posts]
  case withData l =>
    have hl := h.data l hs
    have hk (p : Post) : s.Known p ↔ p ∈ listOfDocumentSnapshot l := by
      simp [Known, hl, mem_listOfDocumentSnapshot]
    have hf : feed l offset now = some ((listOfDocumentSnapshot l).filter (isShown offset now)) := by
      rw [feed, if_pos]
      refine List.all_eq_true.mpr fun p hp => ?_
      exact h.journal.posts _ _ _ (h.known (hk p |>.mpr hp)).right.left |>.passes offset now
    rw [hk, ←List.mem_filter]
    simp only [shown, hs, builder, hf, Option.bind_eq_bind, Option.bind_some, Option.pure_def,
      Option.elim, AsyncSnapshot.withData.injEq, exists_eq', true_and]
    split
    case isTrue he => simp [Body.posts, List.isEmpty_iff.mp he]
    case isFalse   => rfl

-- What is known stays known.
theorem Known.step (h : Sound json s) (he : Step json s e s') (hp : s.Known p) : s'.Known p := by
  have ⟨i, q, hl, hp⟩ := hp
  cases he
  case deliver k q' qs hq =>
    by_cases hk : i = k
    case neg => exact ⟨i, q, by simp [onData, hk, hl], hp⟩
    case pos =>
      subst hk
      have hi := h.increasing i
      rw [queue, hl, hq, Option.toList_some, List.singleton_append, List.pairwise_cons] at hi
      exact ⟨i, q', by simp [onData], hi.left q' List.mem_cons_self hp⟩
  all_goals exact ⟨i, q, hl, hp⟩

theorem Sound.run (h : Sound json s) (r : Run (Step json) s es s') :
    Sound json s' ∧ (s.Known p → s'.Known p) :=
  r.invariant (I := fun s' => Sound json s' ∧ (s.Known p → s'.Known p))
    (fun h he => ⟨h.left.step he, fun hp => (h.right hp).step h.left he⟩) ⟨h, fun hp => hp⟩

-- Once the stream has emitted there are data, unless the last event was an error.
theorem withData_of_run (h : s.snapshot = .withData l) (r : Run (Step json) s es s')
    (hn : s'.snapshot ≠ .withoutData) : ∃ l', s'.snapshot = .withData l' := by
  have hw : s'.snapshot ≠ .waiting := by
    refine r.invariant (I := fun s => s.snapshot ≠ .waiting) (fun h he => ?_) (by simp [h])
    cases he
    case deliver k q _ _ =>
      simp only [onData]
      cases combineLatest (Function.update _ k (some q)) <;> simp [h]
    case journal => exact h
    case answer  => exact h
    case fail    => simp [onError]
    case done    => simp
  cases hs : s'.snapshot
  case waiting     => exact absurd hs hw
  case withoutData => exact absurd hs hn
  case withData l' => exact ⟨l', rfl⟩

theorem sound_of_run (r₀ : Run (Fires (Journal.step json)) .empty es₀ j)
    (r : Run (Step json) (loaded followings j) es s) : Sound json s := by
  have hj := r₀.invariant (I := Journal.Sound json) Journal.Sound.step (Journal.sound_empty json)
  exact r.invariant Sound.step (sound_loaded hj)

theorem Sound.shown_run (h : Sound json s) (r : Run (Step json) s es s') (hp : p ∈ s.shown offset now)
    (now' : Int) : s'.Known p ∧ (p ∈ s'.shown offset now' ↔ isShown offset now' p ∧ s'.snapshot ≠ .withoutData) := by
  have ⟨⟨l, hl⟩, hk, _⟩ := h.mem_shown_iff.mp hp
  have ⟨h', hk'⟩ := h.run (p := p) r
  refine ⟨hk' hk, ?_⟩
  rw [h'.mem_shown_iff]
  constructor
  · intro ⟨⟨l', hl'⟩, _, hi⟩
    exact ⟨hi, by simp [hl']⟩
  · intro ⟨hi, hn⟩
    exact ⟨withData_of_run hl r hn, hk' hk, hi⟩

-- Bob is followed, and his card is shown.
def onlyBob : Fin ["bob"].length :=
  ⟨0, by decide⟩

theorem eq_onlyBob (i : Fin ["bob"].length) : i = onlyBob :=
  Fin.ext <| Nat.lt_one_iff.mp i.isLt

theorem run_bobsPosts : ∃ s, Run (Step plainText) (loaded ["bob"] bobPosted)
    [.answer onlyBob, .deliver onlyBob] s ∧ s.journal = bobPosted ∧ (∀ i, s.inFlight i = []) ∧
    s.Known bobsCard ∧ ∃ l, s.snapshot = .withData l := by
  refine ⟨_, .step (.answer rfl bobsPosts_of) <| .single <| .deliver rfl, rfl, ?_, ?_, ?_⟩
  · intro i
    obtain rfl := eq_onlyBob i
    simp [onData]
  · exact ⟨onlyBob, bobsPosts, by simp [onData], List.mem_cons_self⟩
  · have ⟨l, hl⟩ : ∃ l, combineLatest (Function.update (loaded ["bob"] bobPosted).latest onlyBob
        (some bobsPosts)) = some l := by
      refine Option.ne_none_iff_exists'.mp fun hn => ?_
      have ⟨i, hi⟩ := combineLatest_eq_none_iff.mp hn
      obtain rfl := eq_onlyBob i
      simp at hi
    exact ⟨l, snapshot_onData hl⟩

def hours (n : Int) : Int :=
  n * (60 * 60 * 1000000)

-- The times at which a post is shown are those around its date.
theorem isShown_iff : isShown offset now p ↔ ∃ date : Calendar.DateTime,
    (p.data.string "post_date").bind Calendar.DateTime.parse = some date ∧
      (date.instant offset - now).natAbs < 60 * 24 * (60 * 1000000) := by
  have hd (t : Int) : ((t.tdiv (60 * 1000000)).natAbs < 60 * 24) ↔ t.natAbs < 60 * 24 * (60 * 1000000) := by
    rw [Int.natAbs_tdiv]
    exact Nat.div_lt_iff_lt_mul (k := (60 * 1000000 : Int).natAbs) (by decide)
  simp only [isShown, beq_iff_eq, passes, Document.string]
  rcases p.data "post_date" with _ | _ | _ | _ | _ | _ | _
  all_goals simp only [Option.bind_eq_bind, Option.bind_none, Option.bind_some, Option.bind_eq_some_iff,
    Option.pure_def, Option.some.injEq, decide_eq_true_eq, hd, reduceCtorEq, false_and, exists_false]

theorem isShown_of_between (h₁ : isShown offset t₁ p) (h₃ : isShown offset t₃ p) (h₁₂ : t₁ ≤ t₂)
    (h₂₃ : t₂ ≤ t₃) : isShown offset t₂ p := by
  have ⟨date, hd, h₁⟩ := isShown_iff.mp h₁
  have ⟨date', hd', h₃⟩ := isShown_iff.mp h₃
  obtain rfl := Option.some.inj (hd.symm.trans hd')
  exact isShown_iff.mpr ⟨date, hd, by omega⟩

-- A post which has expired does not come back.
theorem expired_of_run (r₀ : Run (Fires (Journal.step json)) .empty es₀ j)
    (r₁ : Run (Step json) (loaded followings j) es₁ s₁) (r₂ : Run (Step json) s₁ es₂ s₂)
    (r₃ : Run (Step json) s₂ es₃ s₃) (ht₁ : t₁ ≤ t₂) (ht₂ : t₂ ≤ t₃)
    (h₁ : p ∈ s₁.shown offset t₁) (h₂ : p ∉ s₂.shown offset t₂) (hn : s₂.snapshot ≠ .withoutData) :
    p ∉ s₃.shown offset t₃ := by
  intro h₃
  have hs₁ := sound_of_run r₀ r₁
  have hs₃ := sound_of_run r₀ <| r₁.append <| r₂.append r₃
  have hi₁ := (hs₁.mem_shown_iff.mp h₁).right.right
  have hi₃ := (hs₃.mem_shown_iff.mp h₃).right.right
  have hi₂ := isShown_of_between hi₁ hi₃ ht₁ ht₂
  exact h₂ <| (hs₁.shown_run r₂ h₁ t₂).right.mpr ⟨hi₂, hn⟩

theorem expired_of_bobsCard : ∃ s, Run (Step plainText) (loaded ["bob"] bobPosted)
    [.answer onlyBob, .deliver onlyBob] s ∧ bobsCard ∈ s.shown 0 noon ∧
    bobsCard ∉ s.shown 0 (noon + hours 24) ∧ bobsCard ∉ s.shown 0 (noon + hours 25) := by
  have ⟨s, r, _, _, hk, l, hl⟩ := run_bobsPosts
  have h := sound_of_run run_bobPosted r
  have h₁ : bobsCard ∈ s.shown 0 noon := h.mem_shown_iff.mpr ⟨⟨l, hl⟩, hk, by decide⟩
  have h₂ : bobsCard ∉ s.shown 0 (noon + hours 24) := fun h₂ =>
    absurd (h.mem_shown_iff.mp h₂).right.right (by decide)
  exact ⟨s, r, h₁, h₂, expired_of_run run_bobPosted r .refl .refl (by decide) (by decide) h₁ h₂
    (by simp [hl])⟩

-- Queries that have been answered while nobody posted anything have been told all the posts.
def Answered (s : Session followings) (i : Fin followings.length) : Prop :=
  ∃ q, (s.queue i).getLast? = some q ∧ q.Of s.journal.posts

theorem answered_of_run (r : Run (Step json) s es s') (hj : ∀ e, .journal e ∉ es)
    (ha : .answer i ∈ es) : s'.Answered i ∧ (.deliver i ∈ es ∨ s'.inFlight i ≠ []) := by
  refine r.history (P := fun es s' => (∀ e, .journal e ∉ es) → .answer i ∈ es →
    s'.Answered i ∧ (.deliver i ∈ es ∨ s'.inFlight i ≠ [])) (fun _ => nofun) ?_ hj ha
  intro es s e s' _ hi he hj ha
  simp only [List.mem_append, List.mem_singleton, not_or, forall_and] at hj ha ⊢
  have hi := hi hj.left
  cases he
  case journal => exact absurd rfl (hj.right _)
  case fail    => simpa [Answered, queue, onError] using hi (by simpa using ha)
  case done    => simpa [Answered, queue] using hi (by simpa using ha)
  case answer k q _ hq =>
    by_cases hk : i = k
    case pos =>
      subst hk
      exact ⟨⟨q, by simp [queue], hq⟩, .inr <| by simp⟩
    case neg =>
      have ⟨⟨q', hl, ho⟩, hd⟩ := hi (by simpa [hk] using ha)
      exact ⟨⟨q', by simpa [queue, hk] using hl, ho⟩, by simpa [hk] using hd⟩
  case deliver k q qs hq =>
    have ⟨⟨q', hl, ho⟩, hd⟩ := hi (by simpa using ha)
    by_cases hk : i = k
    case pos =>
      subst hk
      refine ⟨⟨q', ?_, ho⟩, .inl <| .inr rfl⟩
      rw [queue, hq, List.getLast?_append_cons] at hl
      simpa [queue, onData] using hl
    case neg =>
      exact ⟨⟨q', by simpa [queue, onData, hk] using hl, ho⟩, by simpa [onData, hk] using hd⟩

theorem withData_of_deliver (r : Run (Step json) s es s') (hf : followings ≠ [])
    (he : ∀ i, .fail i ∉ es) (hd : .deliver i ∈ es) (hl : ∀ i, (s'.latest i).isSome) :
    ∃ l, s'.snapshot = .withData l := by
  refine r.history (P := fun es s' => (∀ i, .fail i ∉ es) → .deliver i ∈ es →
    (∀ i, (s'.latest i).isSome) → ∃ l, s'.snapshot = .withData l) (fun _ => nofun) ?_ he hd hl
  intro es s e s' _ hi he hf' hd hl
  simp only [List.mem_append, List.mem_singleton, not_or, forall_and] at hf' hd
  cases he
  case journal => exact hi hf'.left (by simpa using hd) hl
  case answer  => exact hi hf'.left (by simpa using hd) hl
  case fail k _ _ => exact absurd rfl (hf'.right k)
  case done h => exact absurd h hf
  case deliver k q qs _ =>
    simp only [onData] at hl ⊢
    cases hc : combineLatest (Function.update s.latest k (some q))
    case some l => exact ⟨l, rfl⟩
    case none =>
      have ⟨i, hn⟩ := combineLatest_eq_none_iff.mp hc
      simpa [hn] using hl i

-- When all queries have been answered since the last post, and all answers have arrived, the screen shows
-- the posts of the followed users that pass the filter, and no others.
theorem shown_iff_of_run (r₀ : Run (Fires (Journal.step json)) .empty es₀ j)
    (r : Run (Step json) (loaded followings j) es s) (r' : Run (Step json) s es' s')
    (hf : followings ≠ []) (hj : ∀ e, .journal e ∉ es') (he : ∀ i, .fail i ∉ es')
    (ha : ∀ i, .answer i ∈ es') (hi : ∀ i, s'.inFlight i = []) : p ∈ s'.shown offset now ↔
    p.user ∈ followings ∧ Listed s'.journal.posts p ∧ isShown offset now p := by
  have h := sound_of_run r₀ <| r.append r'
  have hq (i : Fin followings.length) : ∃ q, s'.latest i = some q ∧ q.Of s'.journal.posts := by
    have ⟨q, hq, ho⟩ := answered_of_run r' hj (ha i) |>.left
    refine ⟨q, ?_, ho⟩
    rw [queue, hi, List.append_nil] at hq
    cases hl : s'.latest i <;> simp [hl] at hq ⊢
    exact hq
  have hd : ∃ l, s'.snapshot = .withData l := by
    have i : Fin followings.length := ⟨0, List.length_pos_iff.mpr hf⟩
    have hd := answered_of_run r' hj (ha i) |>.right.resolve_right (· <| hi i)
    refine withData_of_deliver r' hf he hd fun i => ?_
    have ⟨q, hq, _⟩ := hq i
    exact Option.isSome_of_eq_some hq
  rw [h.mem_shown_iff, and_iff_right hd, ←and_assoc]
  refine and_congr_left fun _ => ⟨h.known, fun ⟨hu, hp⟩ => ?_⟩
  have ⟨i, hu⟩ := List.mem_iff_get.mp hu
  have ⟨q, hl, ho⟩ := hq i
  exact ⟨i, q, hl, ho p |>.mpr ⟨hu.symm, hp⟩⟩

theorem shown_iff_of_bobsCard : ∃ s, Run (Step plainText) (loaded ["bob"] bobPosted)
    [.answer onlyBob, .deliver onlyBob] s ∧ ∀ p, p ∈ s.shown 0 noon ↔
      p.user ∈ ["bob"] ∧ Listed s.journal.posts p ∧ isShown 0 noon p := by
  have ⟨s, r, _, hi, _, _⟩ := run_bobsPosts
  refine ⟨s, r, fun p => shown_iff_of_run run_bobPosted .refl r (by simp) (by simp) (by simp) ?_ hi⟩
  intro i
  simp [eq_onlyBob i]

end Session
end HomeTab
