import FeelingsOverflow.Screens.DiaryPosting
import FeelingsOverflow.Screens.Theorems.Formatting
import FeelingsOverflow.Screens.Theorems.NotebookRefinement

open Execution RichText TextFormatting

namespace SnipScreen

def fontFamilies : List String :=
  fontCards.map fun card => card.font.fontFamily

-- Only fonts and backgrounds of the screen are chosen.
structure Choice.Offered (c : Choice) : Prop where
  card       : ∀ card, c.card = some card → card ∈ fontCards
  font       : c.font ∈ fontFamilies
  format     : ∀ f, c.format = some f → f ∈ fontFamilies
  background : c.background ∈ backgrounds

variable {q : Editor AttributeValue} {quillController : QuillController AttributeValue}
variable {s s₀ s' : SnipScreen} {es : List SnipEvent} {c : Choice}

namespace Choice.Offered

theorem initial : Offered .initial where
  card       := by simp [Choice.initial]
  font       := by decide
  format     := by simp [Choice.initial]
  background := by decide

theorem fontFamily (h : Offered c) : c.fontFamily ∈ fontFamilies := by
  rw [Choice.fontFamily]
  cases hc : c.card
  case none      => exact h.font
  case some card => exact List.mem_map_of_mem <| h.card card hc

theorem next (h : Offered c) (hs : s.step q quillController e = some s') : Offered (c.next e) := by
  cases e
  case tapCard card =>
    simp only [SnipScreen.step, Option.ite_none_right_eq_some] at hs
    refine { h with card := fun card' hc => ?_ }
    simp only [Choice.next] at hc
    split at hc
    case isTrue  => cases hc
    case isFalse => exact Option.some.inj hc ▸ hs.left
  case formatText =>
    exact { h with font := h.fontFamily, format := fun _ hf => Option.some.inj hf ▸ h.fontFamily }
  case chooseBackground image =>
    simp only [SnipScreen.step, Option.ite_none_right_eq_some] at hs
    exact { h with background := hs.left }
  case rebuild => exact h

theorem run (r : Run (Fires (SnipScreen.step q quillController)) s₀ es s) : Offered (choice es) := by
  refine r.history (P := fun es _ => Offered (choice es)) initial fun {es s e s'} _ h hs => ?_
  rw [choice_snoc]
  exact h.next hs

end Choice.Offered

-- The selection is neither empty nor longer than 100 units, and it is a part of the text.
theorem selection_of_onCut (h : DiaryPostingScreen.onCut q quillController = some (.snip s₀)) :
    opened q quillController = some s₀ ∧ ∃ selectedText,
      WordSelector.getPlainTextSelection quillController = some selectedText ∧
      0 < selectedText.length ∧ selectedText.length ≤ 100 := by
  simp only [DiaryPostingScreen.onCut] at h
  split at h
  case isTrue => cases h
  case isFalse hn =>
    split at h
    case isTrue => cases h
    case isFalse hl =>
      obtain ⟨_, ho, he⟩ := Option.map_eq_some_iff.mp h
      obtain rfl := DiaryPostingScreen.Cut.snip.inj he
      refine ⟨ho, ?_⟩
      simp only [opened, Option.bind_eq_bind, Option.bind_eq_some_iff] at ho
      obtain ⟨text, ht, _⟩ := ho
      refine ⟨text, ht, ?_⟩
      simp only [WordSelector.getPlainTextSelection, WordSelector.substring,
        Option.ite_none_right_eq_some, Option.some.injEq] at ht
      obtain ⟨⟨hs, hm⟩, ht⟩ := ht
      simp only [←ht, List.length_drop, List.length_take]
      omega

-- What is posted is the selected text, all of it as it is or all of it in one of the fonts.
theorem units_of_run (h : opened q quillController = some s₀)
    (r : Run (Fires (step q quillController)) s₀ es s) :
    s.finalController.document.units = s₀.finalController.document.units ∨
    ∃ f ∈ fontFamilies, s.finalController.document.units =
      s₀.finalController.document.units.map (formatted f "huge") := by
  have hh := holds_run h r
  by_cases hn : NotRebuilt es
  case neg => exact .inl <| hh.lost hn
  case pos =>
    rw [hh.kept hn, wanted]
    cases hf : (choice es).format
    case none   => exact .inl rfl
    case some f => exact .inr ⟨f, (Choice.Offered.run r).format f hf, rfl⟩

theorem map_unit_opened (h : opened q quillController = some s₀)
    (ht : WordSelector.getPlainTextSelection quillController = some text) :
    s₀.finalController.document.units.map StyledUnit.unit = text ++ [newline] := by
  have ⟨c', hc, hp⟩ := WordSelector.createSelectedTextController_painted (q := q) ht
  obtain rfl := Option.some.inj <| finalController_opened h |>.symm.trans hc
  rw [hp.unit_eq]
  simp [Function.comp_def, StyledUnit.newline]

-- From the selection to the feed of a follower: Whatever is done on the screen, the card that is shown
-- has the selected text, in one of the fonts or as it was written, on one of the backgrounds.
theorem snippet_of_run (json : JsonCoding (List (StyledUnit AttributeValue)))
    (h : DiaryPostingScreen.onCut q quillController = some (.snip s₀))
    (r : Run (Fires (step q quillController)) s₀ es s) (currentUser : Uid)
    (offset now timestamp viewer : Int) : ∃ selectedText snippet,
    WordSelector.getPlainTextSelection quillController = some selectedText ∧
    0 < selectedText.length ∧ selectedText.length ≤ 100 ∧
    HomeTab.buildPost json viewer (s.post json currentUser offset now timestamp) =
      some (.wordOnlyDisplay currentUser snippet) ∧
    snippet.diaryContent.map StyledUnit.unit = selectedText ++ [newline] ∧
    snippet.image ∈ backgrounds.map ("assets/images/" ++ · ++ ".jpg") ∧
    (snippet.diaryContent = s₀.finalController.document.units ∨ ∃ f ∈ fontFamilies,
      snippet.diaryContent = s₀.finalController.document.units.map (formatted f "huge")) := by
  have ⟨ho, text, ht, hp, hl⟩ := selection_of_onCut h
  have hu := units_of_run ho r
  have hm := map_unit_opened ho ht
  have hs := shows_postCard json s.finalController.document.units s.chosenBackground currentUser offset
    now timestamp |>.home viewer
  refine ⟨text, _, ht, hp, hl, hs, ?_, ?_, hu⟩
  · rcases hu with hu | ⟨f, _, hu⟩
    · exact hu ▸ hm
    · simpa [Publication.snippetView, hu, Function.comp_def, formatted] using hm
  · have hb := (follows_opened ho).run r |>.background
    exact List.mem_map_of_mem (f := ("assets/images/" ++ · ++ ".jpg")) <|
      hb ▸ (Choice.Offered.run r).background

-- The letter is selected, formatted, and posted.
theorem snippet_of_letter : ∃ s₀ s, ∃ snippet : SnippetView (List (StyledUnit AttributeValue)),
    DiaryPostingScreen.onCut unitEditor letter = some (.snip s₀) ∧
    Run (Fires (step unitEditor letter)) s₀ [.formatText] s ∧
    HomeTab.buildPost (.ofCountable _) 0 (s.post (.ofCountable _) "alice" 0 0 0) =
      some (.wordOnlyDisplay "alice" snippet) ∧
    snippet.diaryContent.map StyledUnit.unit = [97, newline] := by
  have ⟨s₀, h, s, r⟩ : ∃ s₀, DiaryPostingScreen.onCut unitEditor letter = some (.snip s₀) ∧ ∃ s,
      Run (Fires (step unitEditor letter)) s₀ [.formatText] s :=
    ⟨_, rfl, _, .single rfl⟩
  have ⟨text, snippet, ht, _, _, hs, hu, _⟩ := snippet_of_run (.ofCountable _) h r "alice" 0 0 0 0
  obtain rfl : [97] = text := Option.some.inj ht
  exact ⟨s₀, s, snippet, h, r, hs, hu⟩

end SnipScreen
