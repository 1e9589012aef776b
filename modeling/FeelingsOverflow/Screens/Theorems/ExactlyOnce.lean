import FeelingsOverflow.Screens.DiaryCreator
import FeelingsOverflow.Screens.Theorems.Readable

open Firestore Execution

namespace DiaryCreatorScreen

variable {δ : Type}

def Event.isPress : Event δ → Bool
  | onPressed .. => true
  | _            => false

def Event.completed? : Event δ → Option DocId
  | complete _ id => some id
  | _             => none

-- The number of taps on the button, and the IDs of the adds that have completed.
def taps (es : List (Event δ)) : Nat :=
  es.countP Event.isPress

def completed (es : List (Event δ)) : List DocId :=
  es.filterMap Event.completed?

-- The documents of `ids` are new, and nothing else has changed.
structure Added (ids : List DocId) (c c' : Collection DocId) : Prop where
  nodup : ids.Nodup
  new   : ∀ id ∈ ids, c id = none ∧ (c' id).isSome
  same  : ∀ id, id ∉ ids → c' id = c id

-- One document is added and one route is popped.
structure SavedOnce (screen : DiaryCreatorScreen) (s₀ s : State) : Prop where
  added  : ∃ id, Added [id] (s₀.personalDiaries screen.uid) (s.personalDiaries screen.uid)
  popped : s.routes = s₀.routes.tail

-- No add completes during the exit animation.
def Settled (s : State) : Event δ → Prop
  | .complete .. => s.phase ≠ .leaving
  | _            => True

instance (s : State) (e : Event δ) : Decidable (Settled s e) :=
  match e with
  | .complete ..                     => inferInstanceAs (Decidable (s.phase ≠ .leaving))
  | .onPressed .. | .back | .dispose => inferInstanceAs (Decidable True)

-- All that a step can do.
inductive Stepped (screen : DiaryCreatorScreen) (s : State) : Event δ → State → Prop
  | onPressed (doc : Document) : s.phase = .shown →
    Stepped screen s (.onPressed title delta) { s with adds := s.adds ++ [doc] }
  | complete {id : DocId} : s.adds[i]? = some doc → s.personalDiaries screen.uid id = none →
    Stepped screen s (.complete i id) (State.added { s with
      personalDiaries := Function.update s.personalDiaries screen.uid
        (Function.update (s.personalDiaries screen.uid) id (some doc))
      adds := s.adds.eraseIdx i })
  | back : s.phase = .shown → Stepped screen s .back s.pop
  | dispose : s.phase = .leaving → Stepped screen s .dispose { s with phase := .disposed }

variable {c c' : Collection DocId} {id : DocId} {ids : List DocId} {es : List (Event δ)}

theorem Added.refl : Added [] c c where
  nodup := .nil
  new   := by simp
  same  := by simp

theorem Added.update (h : Added ids c c') (hn : c' id = none) (doc : Document) :
    Added (ids ++ [id]) c (Function.update c' id (some doc)) := by
  have hi : id ∉ ids := fun hm => by simpa [hn] using (h.new id hm).right
  constructor
  case nodup => exact List.concat_eq_append ▸ h.nodup.concat hi
  case new =>
    intro i hm
    rcases List.mem_append.mp hm with hm | hm
    case inl =>
      have hne : i ≠ id := fun he => hi (he ▸ hm)
      simpa [hne] using h.new i hm
    case inr =>
      obtain rfl := List.mem_singleton.mp hm
      simp [←h.same i hi, hn]
  case same =>
    intro i hm
    have ⟨hm, hne⟩ := not_or.mp <| List.mem_append.not.mp hm
    rw [Function.update_of_ne <| List.mem_singleton.not.mp hne, h.same i hm]

-- It is determined what has been added.
theorem Added.subset (h : Added ids c c') (h' : Added ids' c c') : ids ⊆ ids' := by
  intro id hm
  by_contra hn
  have ⟨hc, hs⟩ := h.new id hm
  simp [h'.same id hn, hc] at hs

theorem Added.length_eq (h : Added ids c c') (h' : Added ids' c c') : ids.length = ids'.length :=
  le_antisymm (h.nodup.subperm <| h.subset h').length_le (h'.nodup.subperm <| h'.subset h).length_le

variable {json : JsonCoding δ} {screen : DiaryCreatorScreen} {s₀ s s' : State} {e : Event δ}

theorem step_cases (h : screen.step json s e = some s') : Stepped screen s e s' := by
  cases e
  case complete i id =>
    simp only [step, Journal.add, Option.bind_eq_bind, Option.bind_eq_some_iff,
      Option.ite_none_right_eq_some, Option.some.injEq, Option.pure_def] at h
    obtain ⟨doc, hi, _, ⟨hn, rfl⟩, rfl⟩ := h
    exact .complete hi (Option.isNone_iff_eq_none.mp hn)
  all_goals
    simp only [step, Option.ite_none_right_eq_some, Option.some.injEq] at h
    obtain ⟨hp, rfl⟩ := h
  case onPressed => exact .onPressed _ hp
  case back      => exact .back hp
  case dispose   => exact .dispose hp

@[simp]
theorem added_personalDiaries (s : State) : s.added.personalDiaries = s.personalDiaries := by
  simp only [State.added]
  split <;> rfl

@[simp]
theorem added_adds (s : State) : s.added.adds = s.adds := by
  simp only [State.added]
  split <;> rfl

theorem taps_concat (es : List (Event δ)) (e : Event δ) :
    taps (es ++ [e]) = taps es + if e.isPress then 1 else 0 := by
  simp [taps, List.countP_append, List.countP_singleton]

theorem completed_concat (es : List (Event δ)) (e : Event δ) :
    completed (es ++ [e]) = completed es ++ e.completed?.toList := by
  cases h : e.completed? <;> simp [completed, h]

-- Each tap launches an add, and each of those that have completed has added a document.
theorem added_of_run {c₀ : Uid → Collection DocId} {routes : List String}
    (r : Run (Fires (screen.step json)) (opened c₀ routes) es s) :
    taps es = s.adds.length + (completed es).length ∧
    Added (completed es) (c₀ screen.uid) (s.personalDiaries screen.uid) := by
  refine r.history (P := fun (es : List (Event δ)) (s : State) =>
    taps es = s.adds.length + (completed es).length ∧
    Added (completed es) (c₀ screen.uid) (s.personalDiaries screen.uid))
    ⟨rfl, .refl⟩ fun {es s e s'} _ ⟨ht, ha⟩ hs => ?_
  rw [taps_concat, completed_concat]
  cases step_cases hs
  case onPressed doc _ =>
    refine ⟨?_, by simpa [Event.completed?] using ha⟩
    simp [Event.isPress, Event.completed?, ht]
    omega
  case complete i doc id hi hn =>
    have ⟨hl, _⟩ := List.getElem?_eq_some_iff.mp hi
    constructor
    · simp [Event.isPress, Event.completed?, ht, List.length_eraseIdx_of_lt hl]
      omega
    · simpa [Event.completed?] using ha.update hn doc
  case back    => simpa [Event.isPress, Event.completed?, State.pop] using ⟨ht, ha⟩
  case dispose => simpa [Event.isPress, Event.completed?] using ⟨ht, ha⟩

-- What has been popped after the completion of `n` adds, as long as that is at most one: nothing
-- while the screen is shown, and the screen after that. An add that completes during the exit
-- animation pops one more route.
def Popped (n : Nat) (settled : Prop) (s₀ s : State) : Prop :=
  match n with
  | 0 => settled ∧ s.routes = if s.phase = .shown then s₀.routes else s₀.routes.tail
  | 1 => s.phase ≠ .shown ∧ (settled ∧ s.routes = s₀.routes.tail ∨
    ¬settled ∧ s.routes = s₀.routes.tail.tail)
  | _ => True

theorem Popped.step {settled : Prop} (h : Popped n settled s₀ s) (hs : Stepped screen s e s') :
    Popped (n + e.completed?.toList.length) (settled ∧ Settled s e) s₀ s' := by
  match n, h with
  | 0, ⟨hg, hr⟩ =>
    cases hs
    case onPressed   => exact ⟨⟨hg, trivial⟩, hr⟩
    case back hp     => exact ⟨⟨hg, trivial⟩, by simpa [State.pop, hp] using congrArg List.tail hr⟩
    case dispose hp  => exact ⟨⟨hg, trivial⟩, by simpa [hp] using hr⟩
    case complete doc id i _ _ =>
      cases hp : s.phase
      case shown =>
        simp only [hp, if_true] at hr
        refine ⟨by simp [State.added, State.pop], .inl ⟨⟨hg, by simp [Settled, hp]⟩, ?_⟩⟩
        simp [State.added, State.pop, hr]
      case leaving =>
        simp only [hp, reduceCtorEq, if_false] at hr
        refine ⟨by simp [State.added, State.pop], .inr ⟨by simp [Settled, hp], ?_⟩⟩
        simp [State.added, State.pop, hr]
      case disposed =>
        simp only [hp, reduceCtorEq, if_false] at hr
        refine ⟨by simp [State.added], .inl ⟨⟨hg, by simp [Settled, hp]⟩, ?_⟩⟩
        simp [State.added, hr]
  | 1, ⟨hp, hr⟩ =>
    cases hs
    case onPressed => exact ⟨hp, by simpa [Settled] using hr⟩
    case complete  => trivial
    case back hs   => exact absurd hs hp
    case dispose   => exact ⟨nofun, by simpa [Settled] using hr⟩
  | n + 2, _ => cases hs <;> trivial

theorem guarded_concat_iff (r : Run (Fires (screen.step json)) s₀ es s)
    (h : screen.step json s e = some s') :
    Run (Guarded Settled (Fires (screen.step json))) s₀ (es ++ [e]) s' ↔
      Run (Guarded Settled (Fires (screen.step json))) s₀ es s ∧ Settled s e := by
  constructor
  · intro rg
    have ⟨s₁, rg, re⟩ := rg.split
    obtain rfl := Fires.run_deterministic r rg.unguard
    cases re
    case step he _ => exact ⟨rg, he.left⟩
  · exact fun ⟨rg, he⟩ => rg.append <| .single ⟨he, h⟩

theorem popped_of_run {c₀ : Uid → Collection DocId} {routes : List String}
    (r : Run (Fires (screen.step json)) (opened c₀ routes) es s) :
    Popped (completed es).length
      (Run (Guarded Settled (Fires (screen.step json))) (opened c₀ routes) es s)
      (opened c₀ routes) s := by
  refine r.history (P := fun (es : List (Event δ)) (s : State) => Popped (completed es).length
    (Run (Guarded Settled (Fires (screen.step json))) (opened c₀ routes) es s)
    (opened c₀ routes) s) ⟨.refl, rfl⟩ fun r hp hs => ?_
  rw [completed_concat, List.length_append, guarded_concat_iff r hs]
  exact hp.step (step_cases hs)

-- Once all adds have completed, one document is added and one route is popped exactly when there was
-- one tap, and its add did not complete during the exit animation that `back` starts.
theorem savedOnce_iff {c₀ : Uid → Collection DocId} {route previous : String} {routes : List String}
    (r : Run (Fires (screen.step json)) (opened c₀ (route :: previous :: routes)) es s)
    (ha : s.adds = []) :
    SavedOnce screen (opened c₀ (route :: previous :: routes)) s ↔ taps es = 1 ∧
      Run (Guarded Settled (Fires (screen.step json))) (opened c₀ (route :: previous :: routes)) es s := by
  have ⟨hn, h⟩ := added_of_run r
  have hp := popped_of_run r
  rw [ha, List.length_nil, Nat.zero_add] at hn
  rw [←hn] at hp
  constructor
  · rintro ⟨⟨id, hi⟩, hr⟩
    have hl : taps es = 1 := hn.trans <| h.length_eq hi
    rw [hl] at hp
    have ⟨_, hp⟩ := hp
    rcases hp with hp | hp
    case inl => exact ⟨hl, hp.left⟩
    case inr => simpa [opened] using congrArg List.length (hp.right.symm.trans hr)
  · rintro ⟨hl, hg⟩
    have ⟨id, hi⟩ := List.length_eq_one_iff.mp <| hn.symm.trans hl
    rw [hl] at hp
    have ⟨_, hp⟩ := hp
    rcases hp with hp | hp
    case inl => exact ⟨⟨id, hi ▸ h⟩, hp.right⟩
    case inr => exact absurd hg hp.left

-- Without `back` the exit animation starts when the first add completes.
theorem settled_of_not_back {c₀ : Uid → Collection DocId} {routes : List String}
    (r : Run (Fires (screen.step json)) (opened c₀ routes) es s) (hb : .back ∉ es)
    (hc : (completed es).length ≤ 1) :
    Run (Guarded Settled (Fires (screen.step json))) (opened c₀ routes) es s := by
  have h := r.history (P := fun (es : List (Event δ)) (s : State) => .back ∉ es →
    (completed es).length ≤ 1 →
    Run (Guarded Settled (Fires (screen.step json))) (opened c₀ routes) es s ∧
      (completed es = [] → s.phase = .shown)) (fun _ _ => ⟨.refl, fun _ => rfl⟩) ?_
  · exact (h hb hc).left
  · intro es s e s' r hi hs hb hc
    have ⟨hb, he⟩ := not_or.mp <| List.mem_append.not.mp hb
    rw [completed_concat, List.length_append] at hc
    have ⟨hg, hp⟩ := hi hb (by omega)
    rw [guarded_concat_iff r hs, completed_concat]
    cases step_cases hs
    case onPressed     => exact ⟨⟨hg, trivial⟩, by simpa [Event.completed?] using hp⟩
    case back          => simp at he
    case dispose hl    =>
      refine ⟨⟨hg, trivial⟩, fun hn => ?_⟩
      simp [hp <| by simpa [Event.completed?] using hn] at hl
    case complete id i _ _ =>
      have hn : completed es = [] := List.length_eq_zero_iff.mp <| by simpa [Event.completed?] using hc
      exact ⟨⟨hg, by simp [Settled, hp hn]⟩, by simp [Event.completed?]⟩

def monday : DiaryCreatorScreen where
  uid              := "alice"
  colorID          := 0
  offset           := 0
  now              := 0
  currentTimestamp := 0

theorem savedOnce_of_oneTap : ∃ s, Run (Fires (monday.step Journal.plainText))
      (opened (fun _ _ => none) ["diary", "dashboard_screen"])
      [.onPressed "Monday" "Sunny.", .complete 0 "diary", .dispose] s ∧
    SavedOnce monday (opened (fun _ _ => none) ["diary", "dashboard_screen"]) s := by
  have ⟨s, r, ha⟩ : ∃ s, Run (Guarded Settled (Fires (monday.step Journal.plainText)))
      (opened (fun _ _ => none) ["diary", "dashboard_screen"])
      [.onPressed "Monday" "Sunny.", .complete 0 "diary", .dispose] s ∧ s.adds = [] :=
    ⟨_, .step ⟨trivial, rfl⟩ <| .step ⟨nofun, rfl⟩ <| .single ⟨trivial, rfl⟩, rfl⟩
  exact ⟨s, r.unguard, savedOnce_iff r.unguard ha |>.mpr ⟨rfl, r⟩⟩

-- The second of two adds completes during the exit animation.
theorem not_savedOnce_of_twoTaps : ∃ s, Run (Fires (monday.step Journal.plainText))
      (opened (fun _ _ => none) ["diary", "dashboard_screen"])
      [.onPressed "Monday" "Sunny.", .onPressed "Monday" "Sunny.", .complete 0 "diary",
        .complete 0 "copy"] s ∧ s.adds = [] ∧ s.routes = [] ∧
    ¬SavedOnce monday (opened (fun _ _ => none) ["diary", "dashboard_screen"]) s := by
  refine ⟨_, .step rfl <| .step rfl <| .step rfl <| .single rfl, rfl, rfl, fun h => ?_⟩
  have hr : [] = ["dashboard_screen"] := h.popped
  cases hr

end DiaryCreatorScreen
