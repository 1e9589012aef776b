import FeelingsOverflow.Screens.SnipScreen
import FeelingsOverflow.Functionality.Theorems.Selection
import FeelingsOverflow.Execution.Run

open Execution RichText TextFormatting

-- Choosing a background sets the state of the screen.
def SnipEvent.Rebuilds : SnipEvent → Prop
  | tapCard _ | formatText         => False
  | chooseBackground _ | rebuild => True

namespace SnipScreen

-- What is chosen: a card, the family of the last format if there was one, and a background. Without
-- a card a format uses `font`.
structure Choice where
  card : Option FontCard
  font : String
  format : Option String
  background : String

namespace Choice

def fontFamily (c : Choice) : String :=
  c.card.elim c.font fun card => card.font.fontFamily

def next (c : Choice) : SnipEvent → Choice
  | .tapCard card           => { c with card := if c.card = some card then none else some card }
  | .formatText             => { c with font := c.fontFamily, format := some c.fontFamily }
  | .chooseBackground image => { c with background := image }
  | .rebuild                => c

def initial : Choice where
  card       := none
  font       := "Rochester"
  format     := none
  background := "backgroundPastel"

end Choice

def choice (es : List SnipEvent) : Choice :=
  es.foldl Choice.next .initial

-- The selected text in the font of the last format.
def wanted (selected : QuillController AttributeValue) (c : Choice) :
    List (StyledUnit AttributeValue) :=
  match c.format with
  | none            => selected.document.units
  | some fontFamily => selected.document.units.map (formatted fontFamily "huge")

-- The screen is not rebuilt after the last format.
def NotRebuilt (es : List SnipEvent) : Prop :=
  .formatText ∈ es → ∀ e ∈ es.rtakeWhile (· ≠ .formatText), ¬e.Rebuilds

def AlreadyFormatted (selected : QuillController AttributeValue) (fontFamily : String) : Prop :=
  ∀ u ∈ selected.document.units, ∀ s, u.style = some s →
    s.lookup "font" = some (.string fontFamily) ∧ s.lookup "size" = some (.string "huge")

variable {q : Editor AttributeValue} {quillController selected : QuillController AttributeValue}
variable {s s₀ s' : SnipScreen} {es : List SnipEvent}

-- Every card knows whether it is selected.
def Consistent (isSelected : Nat → Bool) (value : Int) : Prop :=
  ∀ card ∈ fontCards, isSelected card.cardIndex = decide (value = card.cardIndex)

theorem foldl_updateSelectedCard (cards : List FontCard) (s : SnipScreen) : ∃ isSelected font,
    cards.foldl updateSelectedCard s =
      { s with isSelected := isSelected, selectedFontNotifier := font } ∧
    ∀ i : Nat, i ∈ cards.map FontCard.cardIndex ∨
        s.isSelected i = decide (s.selectedCardNotifier = i) →
      isSelected i = decide (s.selectedCardNotifier = i) := by
  induction cards generalizing s
  case nil => exact ⟨s.isSelected, s.selectedFontNotifier, rfl, by simp⟩
  case cons card cards hi =>
    have ⟨isSelected, font, he, hs⟩ := hi (s.updateSelectedCard card)
    refine ⟨isSelected, font, he, fun i h => hs i ?_⟩
    by_cases hc : i = card.cardIndex
    case pos => exact .inr <| by simp [updateSelectedCard, hc]
    case neg =>
      have h := h.imp_left fun h => List.mem_of_ne_of_mem hc h
      simpa [updateSelectedCard, hc] using h

theorem setSelectedCard_eq (h : Consistent s.isSelected s.selectedCardNotifier) (value : Int) :
    ∃ isSelected font, s.setSelectedCard value = { s with
      isSelected := isSelected, selectedCardNotifier := value, selectedFontNotifier := font } ∧
    Consistent isSelected value := by
  rw [setSelectedCard]
  split
  case isTrue hv  => exact ⟨s.isSelected, s.selectedFontNotifier, by simp [←hv], hv ▸ h⟩
  case isFalse =>
    have ⟨isSelected, font, he, hs⟩ :=
      foldl_updateSelectedCard fontCards { s with selectedCardNotifier := value }
    exact ⟨isSelected, font, he, fun card hc => hs _ <| .inl <| List.mem_map_of_mem hc⟩

theorem updateSelectedCard_eq (h : Consistent s.isSelected s.selectedCardNotifier)
    (hc : card ∈ fontCards) : s.updateSelectedCard card = { s with
      selectedFontNotifier :=
        if s.selectedCardNotifier = card.cardIndex then some card.font else none } := by
  have hu : Function.update s.isSelected card.cardIndex
      (decide (s.selectedCardNotifier = card.cardIndex)) = s.isSelected := by
    rw [←h card hc, Function.update_eq_self]
  simp [updateSelectedCard, hu]

theorem onCardSelected_eq (h : Consistent s.isSelected s.selectedCardNotifier)
    (hc : card ∈ fontCards) : ∃ isSelected,
    Consistent isSelected (if s.selectedCardNotifier = card.cardIndex then -1 else card.cardIndex) ∧
    s.onCardSelected card = { s with
      isSelected           := isSelected
      selectedCardNotifier := if s.selectedCardNotifier = card.cardIndex then -1 else card.cardIndex
      selectedFontNotifier :=
        if s.selectedCardNotifier = card.cardIndex then none else some card.font } := by
  rw [onCardSelected, h card hc]
  by_cases hn : s.selectedCardNotifier = card.cardIndex
  case pos =>
    have ⟨isSelected, font, he, hs⟩ := setSelectedCard_eq h (-1)
    refine ⟨isSelected, by simpa [hn] using hs, ?_⟩
    have hi : (-1 : Int) ≠ card.cardIndex := by omega
    simp only [hn, decide_true, if_true, he]
    rw [updateSelectedCard_eq hs hc]
    simp [hi]
  case neg =>
    have ⟨isSelected, font, he, hs⟩ := setSelectedCard_eq h card.cardIndex
    refine ⟨isSelected, by simpa [hn] using hs, ?_⟩
    simp only [hn, decide_false, Bool.false_eq_true, if_false, he]
    rw [updateSelectedCard_eq hs hc]
    simp

-- The screen shows what is chosen.
structure Follows (c : Choice) (s : SnipScreen) : Prop where
  known      : ∀ card, c.card = some card → card ∈ fontCards
  consistent : Consistent s.isSelected s.selectedCardNotifier
  notifier   : s.selectedCardNotifier = c.card.elim (-1 : Int) fun card => card.cardIndex
  fontCard   : s.selectedFontNotifier = c.card.map FontCard.font
  font       : s.selectedFont = c.font
  background : s.chosenBackground = c.background

theorem Follows.fontFamily (h : Follows c s) : s.fontFamily = c.fontFamily := by
  rw [SnipScreen.fontFamily, h.fontCard, h.font, Choice.fontFamily]
  cases c.card <;> rfl

theorem cardIndex_inj (h₁ : card₁ ∈ fontCards) (h₂ : card₂ ∈ fontCards) :
    card₁.cardIndex = card₂.cardIndex ↔ card₁ = card₂ := by
  constructor
  · exact List.inj_on_of_nodup_map (by decide) h₁ h₂
  · exact congrArg _

theorem Follows.notifier_eq_iff (h : Follows c s) (hc : card ∈ fontCards) :
    s.selectedCardNotifier = card.cardIndex ↔ c.card = some card := by
  rw [h.notifier]
  cases hn : c.card
  case none        => simp
  case some chosen => simp [cardIndex_inj (h.known chosen hn) hc]

theorem Follows.onCardSelected (h : Follows c s) (hc : card ∈ fontCards) :
    Follows (c.next (.tapCard card)) (s.onCardSelected card) := by
  have ⟨isSelected, hs, he⟩ := onCardSelected_eq h.consistent hc
  simp only [h.notifier_eq_iff hc] at hs he
  rw [he, Choice.next]
  split at hs
  case isTrue hn =>
    exact { h with
      known      := by simp [hn]
      consistent := by simpa [hn] using hs
      notifier   := by simp [hn]
      fontCard   := by simp [hn] }
  case isFalse hn =>
    exact { h with
      known      := by simpa [hn] using hc
      consistent := by simpa [hn] using hs
      notifier   := by simp [hn]
      fontCard   := by simp [hn] }

theorem Follows.onFormatText (h : Follows c s) : Follows (c.next .formatText) (s.onFormatText q) :=
  { h with font := h.fontFamily }

theorem build_eq (h : s.build q quillController = some s') : ∃ selected,
    WordSelector.createSelectedTextController q quillController = some selected ∧
      s' = { s with finalController := selected } := by
  simp only [build, Option.bind_eq_bind, Option.bind_eq_some_iff, Option.pure_def,
    Option.some.injEq] at h
  have ⟨selected, hs, h⟩ := h
  exact ⟨selected, hs, h.symm⟩

theorem Follows.step (h : Follows c s) (hs : s.step q quillController e = some s') :
    Follows (c.next e) s' := by
  cases e
  case tapCard card =>
    simp only [SnipScreen.step, Option.ite_none_right_eq_some, Option.some.injEq] at hs
    exact hs.right ▸ h.onCardSelected hs.left
  case formatText => exact Option.some.inj hs ▸ h.onFormatText
  case chooseBackground image =>
    simp only [SnipScreen.step, Option.ite_none_right_eq_some] at hs
    have ⟨_, _, he⟩ := build_eq hs.right
    exact he ▸ { h with background := rfl }
  case rebuild =>
    have ⟨_, _, he⟩ := build_eq hs
    exact he ▸ { h with }

theorem Follows.run (h : Follows c s)
    (r : Run (Fires (SnipScreen.step q quillController)) s es s') :
    Follows (es.foldl Choice.next c) s' := by
  induction r generalizing c
  case refl        => exact h
  case step e _ hi => exact hi (h.step e)

theorem follows_opened (h : opened q quillController = some s₀) : Follows .initial s₀ := by
  simp only [opened, Option.bind_eq_bind, Option.bind_eq_some_iff] at h
  have ⟨_, _, h⟩ := h
  have ⟨_, _, he⟩ := build_eq h
  exact he ▸ ⟨by simp [Choice.initial], by simp [Consistent], rfl, rfl, rfl, rfl⟩

theorem exists_opened (q : Editor AttributeValue)
    (h : WordSelector.getPlainTextSelection quillController = some text) :
    ∃ s₀, opened q quillController = some s₀ := by
  have ⟨selected, hs, _⟩ := WordSelector.createSelectedTextController_painted (q := q) h
  exact ⟨_, by simp only [opened, h, build, hs, Option.bind_eq_bind, Option.bind_some]; rfl⟩

theorem finalController_opened (h : opened q quillController = some s₀) :
    WordSelector.createSelectedTextController q quillController = some s₀.finalController := by
  simp only [opened, Option.bind_eq_bind, Option.bind_eq_some_iff] at h
  have ⟨_, _, h⟩ := h
  have ⟨_, hs, he⟩ := build_eq h
  exact he ▸ hs

theorem choice_snoc (es : List SnipEvent) (e : SnipEvent) :
    choice (es ++ [e]) = (choice es).next e := by
  simp [choice]

theorem format_eq_none_iff : (choice es).format = none ↔ .formatText ∉ es := by
  induction es using List.reverseRecOn
  case nil => simp [choice, Choice.initial]
  case append_singleton es e hi =>
    rw [choice_snoc]
    cases e <;> simp [Choice.next, hi]

theorem notRebuilt_snoc_tapCard : NotRebuilt (es ++ [.tapCard card]) ↔ NotRebuilt es := by
  simp [NotRebuilt, SnipEvent.Rebuilds, or_imp, forall_and]

theorem notRebuilt_snoc_formatText : NotRebuilt (es ++ [.formatText]) := by
  simp [NotRebuilt]

theorem notRebuilt_snoc_rebuild (he : e.Rebuilds) : NotRebuilt (es ++ [e]) ↔ .formatText ∉ es := by
  have hf : e ≠ .formatText := fun hf => by simp [hf, SnipEvent.Rebuilds] at he
  have hm : e ∈ (es ++ [e]).rtakeWhile (· ≠ .formatText) := by simp [hf]
  simp only [NotRebuilt, List.mem_append, List.mem_singleton, hf.symm, or_false]
  exact ⟨fun h h' => h h' e hm he, fun h h' => absurd h' h⟩

theorem wanted_formatted (selected : QuillController AttributeValue) (c : Choice)
    (fontFamily : String) : (wanted selected c).map (formatted fontFamily "huge") =
      selected.document.units.map (formatted fontFamily "huge") := by
  rw [wanted]
  split
  case h_1 => rfl
  case h_2 => simp [Function.comp_def, formatted_formatted]

-- The text is formatted as it should be until the screen is rebuilt, which restores the selected
-- text.
structure Holds (selected : QuillController AttributeValue) (es : List SnipEvent)
    (s : SnipScreen) : Prop where
  kept : NotRebuilt es → s.finalController.document.units = wanted selected (choice es)
  lost : ¬NotRebuilt es → s.finalController.document.units = selected.document.units

theorem Holds.tapCard (h : Holds selected es s) (card : FontCard)
    (hs : s'.finalController = s.finalController) : Holds selected (es ++ [.tapCard card]) s' where
  kept hn := by
    rw [hs, h.kept (notRebuilt_snoc_tapCard.mp hn), choice_snoc]
    rfl
  lost hn := by
    rw [hs, h.lost fun h => hn (notRebuilt_snoc_tapCard.mpr h)]

theorem Holds.formatText (h : Holds selected es s) (hf : Follows (choice es) s) :
    Holds selected (es ++ [.formatText]) (s.onFormatText q) where
  kept _ := by
    have hs : s.finalController.document.units.map (formatted s.fontFamily "huge") =
        selected.document.units.map (formatted s.fontFamily "huge") := by
      by_cases hn : NotRebuilt es
      case pos => rw [h.kept hn, wanted_formatted]
      case neg => rw [h.lost hn]
    simp only [onFormatText, units_format]
    rw [hs, hf.fontFamily, choice_snoc]
    rfl
  lost h := absurd notRebuilt_snoc_formatText h

theorem Holds.rebuild (he : e.Rebuilds) (hs : s.finalController = selected) :
    Holds selected (es ++ [e]) s where
  kept hn := by
    have hf := format_eq_none_iff.mpr <| notRebuilt_snoc_rebuild he |>.mp hn
    have hc : (choice (es ++ [e])).format = none := by
      rw [choice_snoc]
      cases e <;> simp_all [Choice.next, SnipEvent.Rebuilds]
    rw [hs, wanted, hc]
  lost _ := hs ▸ rfl

theorem finalController_onCardSelected (s : SnipScreen)
    (hc : Consistent s.isSelected s.selectedCardNotifier) (h : card ∈ fontCards) :
    (s.onCardSelected card).finalController = s.finalController := by
  have ⟨_, _, he⟩ := onCardSelected_eq hc h
  rw [he]

theorem Holds.step (h : Holds s₀.finalController es s) (hf : Follows (choice es) s)
    (ho : opened q quillController = some s₀) (hs : s.step q quillController e = some s') :
    Holds s₀.finalController (es ++ [e]) s' := by
  have hb {s : SnipScreen} (hb : s.build q quillController = some s') :
      s'.finalController = s₀.finalController := by
    have ⟨_, hc, he⟩ := build_eq hb
    rw [he]
    exact Option.some.inj <| hc.symm.trans <| finalController_opened ho
  cases e
  case tapCard card =>
    simp only [SnipScreen.step, Option.ite_none_right_eq_some, Option.some.injEq] at hs
    exact h.tapCard card <| hs.right ▸ finalController_onCardSelected s hf.consistent hs.left
  case formatText => exact Option.some.inj hs ▸ h.formatText hf
  case chooseBackground image =>
    simp only [SnipScreen.step, Option.ite_none_right_eq_some] at hs
    exact .rebuild trivial <| hb hs.right
  case rebuild => exact .rebuild trivial <| hb hs

theorem holds_run (ho : opened q quillController = some s₀)
    (r : Run (Fires (step q quillController)) s₀ es s) : Holds s₀.finalController es s := by
  induction es using List.reverseRecOn generalizing s
  case nil =>
    rw [r.nil_eq]
    exact ⟨fun _ => rfl, fun _ => rfl⟩
  case append_singleton es e hi =>
    have ⟨s₁, r₁, r₂⟩ := r.split
    cases r₂
    case step hs r₂ =>
      rw [r₂.nil_eq]
      exact (hi r₁).step ((follows_opened ho).run r₁) ho hs

theorem eq_wanted_iff (selected : QuillController AttributeValue) (c : Choice) :
    selected.document.units = wanted selected c ↔
      ∀ fontFamily, c.format = some fontFamily → AlreadyFormatted selected fontFamily := by
  rw [wanted]
  split
  case h_1 hn => simp [hn]
  case h_2 f hf =>
    simp only [hf, Option.some.injEq, forall_eq', AlreadyFormatted, ←formatted_eq_self_iff]
    conv_lhs => rw [eq_comm, ←List.map_id selected.document.units, List.map_map]
    exact List.map_inj_left

-- What is posted is formatted as chosen if and only if the screen is not rebuilt after the last
-- format, or that format makes no difference.
theorem posted_iff (json : JsonCoding (List (StyledUnit AttributeValue)))
    (h : opened q quillController = some s₀) (r : Run (Fires (step q quillController)) s₀ es s) :
    s.posted json =
        (json.jsonEncode (wanted s₀.finalController (choice es)), (choice es).background) ↔
      NotRebuilt es ∨ ∀ fontFamily, (choice es).format = some fontFamily →
        AlreadyFormatted s₀.finalController fontFamily := by
  have hh := holds_run h r
  have hf : Follows (choice es) s := (follows_opened h).run r
  simp only [posted, Prod.mk.injEq, hf.background, and_true, json.jsonEncode_inj, ←eq_wanted_iff]
  by_cases hn : NotRebuilt es
  case pos => simp [hn, hh.kept hn]
  case neg => simp [hn, hh.lost hn]

-- A single letter, which is selected.
def letter : QuillController AttributeValue where
  document  := ⟨[.run ⟨[WordSelector.letterA], ∅, by simp⟩]⟩
  selection := ⟨0, 1⟩

theorem posted_of_formatLast : ∃ s₀ s, opened unitEditor letter = some s₀ ∧
    Run (Fires (step unitEditor letter)) s₀ [.chooseBackground "vibrantBackground", .formatText] s ∧
    s.posted (.ofCountable _) = ((JsonCoding.ofCountable _).jsonEncode
      (wanted s₀.finalController (choice [.chooseBackground "vibrantBackground", .formatText])),
        "vibrantBackground") := by
  have ⟨s₀, h, s, r⟩ : ∃ s₀, opened unitEditor letter = some s₀ ∧ ∃ s,
      Run (Fires (step unitEditor letter)) s₀
        [.chooseBackground "vibrantBackground", .formatText] s :=
    ⟨_, rfl, _, .step rfl <| .single rfl⟩
  have hn : NotRebuilt ([.chooseBackground "vibrantBackground"] ++ [.formatText]) :=
    notRebuilt_snoc_formatText
  exact ⟨s₀, s, h, r, posted_iff (.ofCountable _) h r |>.mpr <| .inl hn⟩

-- Choosing a background removes the format.
theorem not_posted_of_backgroundLast : ∃ s₀ s, opened unitEditor letter = some s₀ ∧
    Run (Fires (step unitEditor letter)) s₀ [.formatText, .chooseBackground "vibrantBackground"] s ∧
    s.posted (.ofCountable _) = ((JsonCoding.ofCountable _).jsonEncode letter.document.units,
      "vibrantBackground") ∧
    s.posted (.ofCountable _) ≠ ((JsonCoding.ofCountable _).jsonEncode
      (wanted s₀.finalController (choice [.formatText, .chooseBackground "vibrantBackground"])),
        "vibrantBackground") := by
  have ⟨s₀, h, hu, s, r, hs⟩ : ∃ s₀, opened unitEditor letter = some s₀ ∧
      s₀.finalController.document.units = letter.document.units ∧ ∃ s,
      Run (Fires (step unitEditor letter)) s₀
        [.formatText, .chooseBackground "vibrantBackground"] s ∧
        s.finalController.document.units = letter.document.units ∧
        s.chosenBackground = "vibrantBackground" :=
    ⟨_, rfl, rfl, _, .step rfl <| .single rfl, rfl, rfl⟩
  refine ⟨s₀, s, h, r, by rw [posted, hs.left, hs.right], fun he => ?_⟩
  rw [posted, Prod.mk.injEq, JsonCoding.jsonEncode_inj, hs.left, ←hu] at he
  have ha := eq_wanted_iff .. |>.mp he.left "Rochester" rfl
  rw [AlreadyFormatted, hu] at ha
  have hl := ha (.text WordSelector.letterA ∅) (.head _) ∅ rfl
  simp at hl

end SnipScreen
