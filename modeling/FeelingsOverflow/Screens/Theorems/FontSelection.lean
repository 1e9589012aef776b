import FeelingsOverflow.Screens.SnipScreen
import FeelingsOverflow.Execution.Run

open Execution

-- What a card makes of the value of `selectedCardNotifier`.
def MountedCard.select (value : Int) (c : MountedCard) : MountedCard :=
  { c with isSelected := value = c.card.cardIndex }

@[simp]
theorem MountedCard.select_select (v w : Int) (c : MountedCard) :
    (c.select v).select w = c.select w :=
  rfl

namespace FontCards

variable {cards : List FontCard} {s s' : FontCards} {c : MountedCard}

-- Every card on the screen knows whether it is selected.
def Consistent (s : FontCards) : Prop :=
  ∀ c ∈ s.mounted, c.select s.selectedCardNotifier = c

-- The value is -1 or the index of one of the cards, and the cards on the screen and the font agree
-- with it.
structure Coherent (cards : List FontCard) (s : FontCards) : Prop where
  known      : ∀ c ∈ s.mounted, c.card ∈ cards
  consistent : ∀ c ∈ s.mounted, c.isSelected ↔ s.selectedCardNotifier = c.card.cardIndex
  index      : s.selectedCardNotifier = -1 ∨ ∃ card ∈ cards, s.selectedCardNotifier = card.cardIndex
  noFont     : s.selectedCardNotifier = -1 → s.selectedFontNotifier = none
  font       : ∀ card ∈ cards, s.selectedCardNotifier = card.cardIndex →
    s.selectedFontNotifier = some card.font

-- The value after a tap on a card.
def toggled (s : FontCards) (c : MountedCard) : Int :=
  if s.selectedCardNotifier = c.card.cardIndex then -1 else c.card.cardIndex

theorem updateSelectedCard_of_some (hi : s.mounted[i]? = some c) :
    s.updateSelectedCard i = { s with
      mounted              := s.mounted.set i (c.select s.selectedCardNotifier)
      selectedFontNotifier :=
        if s.selectedCardNotifier = c.card.cardIndex then some c.card.font else none } := by
  simp [updateSelectedCard, hi, MountedCard.select]

theorem foldl_updateSelectedCard (is : List Nat) (s : FontCards) : ∃ mounted font,
    is.foldl updateSelectedCard s =
      { s with mounted := mounted, selectedFontNotifier := font } ∧
    ∀ j, mounted[j]? = s.mounted[j]?.map fun c =>
      if j ∈ is then c.select s.selectedCardNotifier else c := by
  induction is generalizing s
  case nil => exact ⟨s.mounted, s.selectedFontNotifier, rfl, by simp⟩
  case cons i is hi =>
    have ⟨mounted, font, he, hm⟩ := hi (s.updateSelectedCard i)
    cases hc : s.mounted[i]?
    case none =>
      have hu : s.updateSelectedCard i = s := by simp [updateSelectedCard, hc]
      rw [hu] at he hm
      refine ⟨mounted, font, by rw [List.foldl_cons, hu, he], fun j => ?_⟩
      rw [hm]
      by_cases hj : j = i
      case pos => simp [hj, hc]
      case neg => simp [hj]
    case some c =>
      have hu := updateSelectedCard_of_some hc
      rw [hu] at he hm
      refine ⟨mounted, font, by rw [List.foldl_cons, hu, he], fun j => ?_⟩
      rw [hm]
      by_cases hj : j = i
      case pos =>
        have ⟨hl, he⟩ := List.getElem?_eq_some_iff.mp hc
        simp [hj, hl, he]
      case neg => simp [hj, List.getElem?_set_ne (Ne.symm hj)]

theorem map_select (h : s.Consistent) : s.mounted.map (·.select s.selectedCardNotifier) = s.mounted := by
  rw [List.map_congr_left h, List.map_id']

theorem setSelectedCard_eq (h : s.Consistent) (value : Int) : ∃ font, s.setSelectedCard value =
    ⟨s.mounted.map (·.select value), value, font⟩ := by
  rw [setSelectedCard]
  split
  case isTrue hv  => exact ⟨s.selectedFontNotifier, by rw [←hv, map_select h]⟩
  case isFalse =>
    have ⟨mounted, font, he, hm⟩ := foldl_updateSelectedCard (List.range s.mounted.length)
      { s with selectedCardNotifier := value }
    have hs : mounted = s.mounted.map (·.select value) := by
      apply List.ext_getElem?
      intro j
      rw [hm, List.getElem?_map]
      by_cases hj : j < s.mounted.length
      case pos => simp [hj]
      case neg => simp [Nat.not_lt.mp hj]
    exact ⟨font, by rw [he, hs]⟩

-- A card that updates itself once more sets the font.
theorem updateSelectedCard_map (hi : s.mounted[i]? = some c) (value : Int) (font : Option Font) :
    updateSelectedCard ⟨s.mounted.map (·.select value), value, font⟩ i =
      ⟨s.mounted.map (·.select value), value,
        if value = c.card.cardIndex then some c.card.font else none⟩ := by
  have hc : (s.mounted.map (·.select value))[i]? = some (c.select value) := by simp [hi]
  rw [updateSelectedCard_of_some hc, MountedCard.select_select]
  congr 1
  apply List.ext_getElem?
  intro j
  by_cases hj : j = i
  case pos =>
    have ⟨hl, _⟩ := List.getElem?_eq_some_iff.mp hc
    rw [hj, List.getElem?_set_self hl, hc]
  case neg => rw [List.getElem?_set_ne (Ne.symm hj)]

theorem onCardSelected_eq (h : s.Consistent) (hi : s.mounted[i]? = some c) :
    s.onCardSelected i c = ⟨s.mounted.map (·.select (s.toggled c)), s.toggled c,
      if s.toggled c = c.card.cardIndex then some c.card.font else none⟩ := by
  have hc : c.isSelected = decide (s.selectedCardNotifier = c.card.cardIndex) :=
    congrArg MountedCard.isSelected (h c (List.mem_of_getElem? hi)).symm
  rw [onCardSelected, hc, toggled]
  by_cases hs : s.selectedCardNotifier = c.card.cardIndex
  case pos =>
    have ⟨font, he⟩ := setSelectedCard_eq h (-1)
    simp only [hs, decide_true, if_true, he]
    exact updateSelectedCard_map hi ..
  case neg =>
    have ⟨font, he⟩ := setSelectedCard_eq h c.card.cardIndex
    simp only [hs, decide_false, Bool.false_eq_true, if_false, he, updateSelectedCard_map hi]

theorem Coherent.select_eq (h : Coherent cards s) : s.Consistent := by
  intro c hc
  have hs : decide (s.selectedCardNotifier = c.card.cardIndex) = c.isSelected :=
    Bool.eq_iff_iff.mpr <| decide_eq_true_iff.trans (h.consistent c hc).symm
  simp only [MountedCard.select, hs]

theorem coherent_start (cards : List FontCard) : Coherent cards start where
  known      := by simp [start]
  consistent := by simp [start]
  index      := .inl rfl
  noFont _   := rfl
  font card _ hc := by simp [start] at hc

theorem Coherent.mount (h : Coherent cards s) (hc : card ∈ cards) :
    Coherent cards (s.initState card) :=
  { h with
    known      := by simpa [initState, or_imp, forall_and] using ⟨h.known, hc⟩
    consistent := by simpa [initState, or_imp, forall_and] using h.consistent }

theorem Coherent.dispose (h : Coherent cards s) (i : Nat) : Coherent cards (s.dispose i) :=
  { h with
    known      := fun c hc => h.known c <| List.mem_of_mem_eraseIdx hc
    consistent := fun c hc => h.consistent c <| List.mem_of_mem_eraseIdx hc }

-- Whichever cards the tap notifies, and in which order, the tapped one has the last word.
theorem Coherent.tap (h : Coherent cards s) (hd : (cards.map FontCard.cardIndex).Nodup)
    (hi : s.mounted[i]? = some c) : Coherent cards (s.onCardSelected i c) := by
  have hc := h.known c (List.mem_of_getElem? hi)
  rw [onCardSelected_eq h.select_eq hi]
  constructor
  case known =>
    intro c hc
    have ⟨c', hc, he⟩ := List.mem_map.mp hc
    exact he ▸ h.known c' hc
  case consistent =>
    intro c hc
    have ⟨c', _, he⟩ := List.mem_map.mp hc
    simp [←he, MountedCard.select]
  case index =>
    rw [toggled]
    split
    case isTrue  => exact .inl rfl
    case isFalse => exact .inr ⟨c.card, hc, rfl⟩
  case noFont =>
    intro hn
    have hv : s.toggled c ≠ c.card.cardIndex := by simp only at hn; omega
    exact if_neg hv
  case font =>
    intro card hm hv
    simp only [toggled] at hv ⊢
    split at hv
    case isTrue  => omega
    case isFalse hs =>
      have he : c.card = card := List.inj_on_of_nodup_map hd hc hm (by exact_mod_cast hv)
      simp [he ▸ hs, he]

theorem Coherent.step (hd : (cards.map FontCard.cardIndex).Nodup) (h : Coherent cards s)
    (hs : s.step cards e = some s') : Coherent cards s' := by
  cases e
  case mount card =>
    simp only [FontCards.step, Option.ite_none_right_eq_some, Option.some.injEq] at hs
    exact hs.right ▸ h.mount hs.left
  case dispose i =>
    simp only [FontCards.step, Option.ite_none_right_eq_some, Option.some.injEq] at hs
    exact hs.right ▸ h.dispose i
  case tap i =>
    simp only [FontCards.step, Option.map_eq_some_iff] at hs
    have ⟨c, hi, hs⟩ := hs
    exact hs ▸ h.tap hd hi

-- The cards stay coherent however they are shown, disposed of and tapped. A tap on the selected card
-- deselects it, and one on another card selects that.
theorem coherent_of_run (hd : (cards.map FontCard.cardIndex).Nodup)
    (r : Run (Fires (step cards)) start es s) : Coherent cards s ∧
    ∀ i c, s.mounted[i]? = some c → ∃ s', s.step cards (.tap i) = some s' ∧
      s'.selectedCardNotifier = if c.isSelected then -1 else (c.card.cardIndex : Int) := by
  have h := r.invariant (I := Coherent cards) (fun h hs => h.step hd hs) (coherent_start cards)
  refine ⟨h, fun i c hi => ⟨s.onCardSelected i c, by simp [step, hi], ?_⟩⟩
  have hc := h.consistent c (List.mem_of_getElem? hi)
  simp only [onCardSelected_eq h.select_eq hi, toggled, hc]

-- The first card is selected, then the second one. The first one is disposed of and comes back.
def taps : List CardEvent := [
  .mount ⟨0, ⟨"Rochester", "Rochester"⟩⟩,
  .mount ⟨3, ⟨"Stalemate", "Stalemate"⟩⟩,
  .tap 0,
  .tap 1,
  .dispose 0,
  .mount ⟨0, ⟨"Rochester", "Rochester"⟩⟩
]

theorem coherent_of_taps : ∃ s, Run (Fires (step SnipScreen.fontCards)) start taps s ∧
    s.selectedFontNotifier = some ⟨"Stalemate", "Stalemate"⟩ ∧ Coherent SnipScreen.fontCards s := by
  have ⟨s, r, hf⟩ : ∃ s, Run (Fires (step SnipScreen.fontCards)) start taps s ∧
      s.selectedFontNotifier = some ⟨"Stalemate", "Stalemate"⟩ :=
    ⟨_, .step rfl <| .step rfl <| .step rfl <| .step rfl <| .step rfl <| .single rfl, rfl⟩
  exact ⟨s, r, hf, (coherent_of_run (by decide) r).left⟩

end FontCards

namespace SnipScreen

-- The cards of the screen, all of which are on it.
def cards (s : SnipScreen) : FontCards where
  mounted              := fontCards.map fun card => ⟨card, s.isSelected card.cardIndex⟩
  selectedCardNotifier := s.selectedCardNotifier
  selectedFontNotifier := s.selectedFontNotifier

variable {s : SnipScreen} {card : FontCard} {i : Nat}

theorem cards_getElem? (hi : fontCards[i]? = some card) :
    s.cards.mounted[i]? = some ⟨card, s.isSelected card.cardIndex⟩ := by
  simp [cards, hi]

theorem cardIndex_eq (hi : fontCards[i]? = some card) : card.cardIndex = i := by
  match i with
  | 0 | 1 | 2 | 3 => exact Option.some.inj hi ▸ rfl
  | _ + 4         => simp [fontCards] at hi

theorem cards_updateSelectedCard (hi : fontCards[i]? = some card) :
    (s.updateSelectedCard card).cards = s.cards.updateSelectedCard i := by
  rw [FontCards.updateSelectedCard_of_some (cards_getElem? hi)]
  have hf : (s.updateSelectedCard card).selectedFontNotifier =
      if s.selectedCardNotifier = card.cardIndex then some card.font else none := by
    simp [updateSelectedCard]
  refine FontCards.mk.injEq .. ▸ ⟨?_, rfl, hf⟩
  apply List.ext_getElem?
  intro j
  by_cases hj : j = i
  case pos =>
    have ⟨hl, _⟩ := List.getElem?_eq_some_iff.mp hi
    rw [hj, List.getElem?_map, hi, List.getElem?_set_self (by simpa [cards] using hl)]
    have hs : (s.updateSelectedCard card).isSelected card.cardIndex =
        decide (s.selectedCardNotifier = card.cardIndex) := Function.update_self ..
    rw [Option.map_some, hs]
    rfl
  case neg =>
    rw [List.getElem?_set_ne (Ne.symm hj), cards, List.getElem?_map, List.getElem?_map]
    refine Option.map_congr fun c hc => ?_
    have hs : (s.updateSelectedCard card).isSelected c.cardIndex = s.isSelected c.cardIndex :=
      Function.update_of_ne (by rwa [cardIndex_eq hc, cardIndex_eq hi]) ..
    rw [hs]

theorem cards_foldl {cs : List FontCard} {is : List Nat}
    (h : List.Forall₂ (fun card (i : Nat) => fontCards[i]? = some card) cs is) (s : SnipScreen) :
    (cs.foldl updateSelectedCard s).cards = is.foldl FontCards.updateSelectedCard s.cards := by
  induction h generalizing s
  case nil          => rfl
  case cons hi _ ih => rw [List.foldl_cons, List.foldl_cons, ih, cards_updateSelectedCard hi]

theorem cards_setSelectedCard (s : SnipScreen) (value : Int) :
    (s.setSelectedCard value).cards = s.cards.setSelectedCard value := by
  rw [setSelectedCard, FontCards.setSelectedCard]
  split
  case isTrue hv  => rw [if_pos (by simpa [cards] using hv)]
  case isFalse hv =>
    rw [if_neg (by simpa [cards] using hv)]
    exact cards_foldl (.cons rfl <| .cons rfl <| .cons rfl <| .cons rfl .nil) _

-- The screen selects fonts as its cards do.
theorem cards_onCardSelected (hi : fontCards[i]? = some card) : (s.onCardSelected card).cards =
    s.cards.onCardSelected i ⟨card, s.isSelected card.cardIndex⟩ := by
  rw [onCardSelected, FontCards.onCardSelected]
  split <;> rw [cards_updateSelectedCard hi, cards_setSelectedCard]

end SnipScreen
