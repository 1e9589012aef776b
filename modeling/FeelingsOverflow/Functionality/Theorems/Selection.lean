import FeelingsOverflow.Functionality.WordSelector

open RichText

namespace WordSelector

variable {ν : Type} {q : Editor ν} {c : QuillController ν} {us : List (StyledUnit ν)}

theorem getPlainTextSelection_eq (h : c.selection.start ≤ c.selection.stop)
    (hl : c.selection.stop ≤ c.document.length) : getPlainTextSelection c =
      some ((c.document.toPlainText.take c.selection.stop).drop c.selection.start) := by
  rw [getPlainTextSelection, substring, if_pos ⟨h, by simpa using hl⟩]

-- Where the extent of a style ends, given those that follow it.
def nextOffset (l : Nat) : List (OffsetValue (Style ν)) → Nat
  | []     => l
  | e :: _ => e.offset

theorem lt_nextOffset {es : List (OffsetValue (Style ν))} (hl : j < l)
    (h : ∀ e ∈ es, j < e.offset) : j < nextOffset l es := by
  cases es
  case nil       => exact hl
  case cons e es => exact h e (.head es)

theorem nextOffset_append_le {pre : List (OffsetValue (Style ν))} (h : ∀ e ∈ pre, e.offset ≤ j)
    (ha : a ≤ j) (s : Style ν) (post : List (OffsetValue (Style ν))) :
    nextOffset l (pre ++ ⟨a, s⟩ :: post) ≤ j := by
  cases pre
  case nil        => exact ha
  case cons e pre => exact h e (.head pre)

-- What the loop over the styles does to the units.
def paintAll (l : Nat) :
    List (OffsetValue (Style ν)) → List (StyledUnit ν) → List (StyledUnit ν)
  | [], us      => us
  | e :: es, us => paintAll l es (paint e.offset (nextOffset l es - e.offset) e.value us)

theorem getElem?_endIndex {endIndex : List Nat} {es : List (OffsetValue (Style ν))}
    (h : endIndex.drop index = es.map OffsetValue.offset ++ [l]) :
    endIndex[index]? = some (nextOffset l es) := by
  rw [←List.head?_drop, h]
  cases es <;> rfl

theorem formatStyles_eq {endIndex : List Nat}
    (h : endIndex.drop index = es.map OffsetValue.offset ++ [l]) :
    ∃ c', formatStyles q endIndex index (e :: es) c = some c' ∧
      c'.document.units = paintAll l (e :: es) c.document.units := by
  induction es generalizing index e c
  case nil =>
    refine ⟨c.formatTextStyle q e.offset (l - e.offset) e.value, ?_, q.units_formatTextStyle ..⟩
    rw [formatStyles, getElem?_endIndex h]
    rfl
  case cons e' es hi =>
    have hd : endIndex.drop (index + 1) = es.map OffsetValue.offset ++ [l] := by
      rw [←List.tail_drop, h]
      rfl
    have ⟨c', hc, hu⟩ :=
      hi (e := e') (c := c.formatTextStyle q e.offset (e'.offset - e.offset) e.value) hd
    refine ⟨c', ?_, ?_⟩
    · rwa [formatStyles, getElem?_endIndex h]
    · rw [hu, paintAll, QuillController.formatTextStyle, q.units_formatTextStyle]
      rfl

@[simp]
theorem map_unit_paintAll (l : Nat) (es : List (OffsetValue (Style ν))) (us : List (StyledUnit ν)) :
    (paintAll l es us).map StyledUnit.unit = us.map StyledUnit.unit := by
  induction es generalizing us
  case nil          => rfl
  case cons e es hi => rw [paintAll, hi, map_unit_paint]

theorem getElem?_paintAll_of_lt (h : ∀ e ∈ es, j < e.offset) :
    (paintAll l es us)[j]? = us[j]? := by
  induction es generalizing us
  case nil => rfl
  case cons e es hi =>
    have ⟨he, hes⟩ := List.forall_mem_cons.mp h
    rw [paintAll, hi hes, getElem?_paint_of_not_mem (.inl he)]

-- A unit gets the last one of those styles that do not start after it.
theorem getElem?_paintAll (hj : j < l) (hp : ∀ e ∈ pre, e.offset ≤ j) (ha : a ≤ j)
    (hq : ∀ e ∈ post, j < e.offset) (s : Style ν) :
    (paintAll l (pre ++ ⟨a, s⟩ :: post) us)[j]? = us[j]?.map (·.put s) := by
  induction pre generalizing us
  case nil =>
    have hn := lt_nextOffset hj hq
    have hm : j < a + (nextOffset l post - a) := by omega
    rw [List.nil_append, paintAll, getElem?_paintAll_of_lt hq, getElem?_paint_of_mem ha hm]
  case cons e pre hi =>
    have hp := List.forall_mem_cons.mp hp |>.right
    have hn := nextOffset_append_le (l := l) hp ha s post
    rw [List.cons_append, paintAll, hi hp, getElem?_paint_of_not_mem (by omega)]

-- Units `vs` that are `us`, but with each one of the text runs in the style of its run.
structure Painted (l : Nat) (es : List (OffsetValue (Style ν))) (us vs : List (StyledUnit ν)) :
    Prop where
  unit_eq : vs.map StyledUnit.unit = us.map StyledUnit.unit
  put_eq  : ∀ (pre : List (OffsetValue (Style ν))) a s post, es = pre ++ ⟨a, s⟩ :: post →
    ∀ j < l, (∀ e ∈ pre, e.offset ≤ j) → a ≤ j → (∀ e ∈ post, j < e.offset) →
      vs[j]? = us[j]?.map (·.put s)

theorem painted_nil (l : Nat) (us : List (StyledUnit ν)) : Painted l [] us us where
  unit_eq := rfl
  put_eq  := by simp

theorem painted_singleton (l : Nat) (e : OffsetValue (Style ν)) (us : List (StyledUnit ν)) :
    Painted l [e] us (paint e.offset l e.value us) where
  unit_eq := map_unit_paint ..
  put_eq _ a _ _ he _ hj _ ha _ := by
    have h := List.append_eq_singleton_iff.mp he.symm
    simp only [reduceCtorEq, and_false, or_false, List.cons.injEq] at h
    have he := h.right.left
    subst he
    exact getElem?_paint_of_mem ha (Nat.lt_add_left a hj) ..

theorem painted_paintAll (l : Nat) (es : List (OffsetValue (Style ν))) (us : List (StyledUnit ν)) :
    Painted l es us (paintAll l es us) where
  unit_eq := map_unit_paintAll ..
  put_eq _ _ s _ he _ hj hp ha hq := he ▸ getElem?_paintAll hj hp ha hq s

theorem createSelectedTextController_painted (h : getPlainTextSelection c = some text) :
    ∃ c', createSelectedTextController q c = some c' ∧
      Painted text.length (c.getAllIndividualSelectionStyles q)
        (text.map .unstyled ++ [.newline]) c'.document.units := by
  have hu : (QuillController.basic.compose q text).document.units =
      text.map .unstyled ++ [.newline] := q.units_compose ..
  simp only [createSelectedTextController, h, Option.bind_eq_bind, Option.bind_some, ←hu]
  split
  case h_1 he => exact ⟨_, rfl, he ▸ painted_nil ..⟩
  case h_2 e he =>
    refine ⟨_, rfl, ?_⟩
    rw [he, QuillController.formatTextStyle, q.units_formatTextStyle]
    exact painted_singleton ..
  case h_3 e es _ he =>
    have hd : (es.map OffsetValue.offset ++ [text.length]).drop 0 =
        es.map OffsetValue.offset ++ [text.length] := rfl
    have ⟨c', hc, hp⟩ :=
      formatStyles_eq (q := q) (c := QuillController.basic.compose q text) (e := e) hd
    exact ⟨c', hc, he ▸ hp ▸ painted_paintAll ..⟩

-- A unit of a text run is a unit of the selected text, and no newline.
theorem getElem?_selectedText (ht : getPlainTextSelection c = some text)
    (hs : c.document.styleAt (c.selection.start + i) = some style) (hi : i < text.length) :
    ∃ u, text[i]? = some u ∧ u ≠ newline := by
  simp only [getPlainTextSelection, substring, Option.ite_none_right_eq_some,
    Option.some.injEq] at ht
  have ⟨_, ht⟩ := ht
  subst ht
  simp only [Document.styleAt, Option.bind_eq_some_iff] at hs
  have ⟨u, hu, hs⟩ := hs
  have hn : u.unit ≠ newline := fun hn => by simp [u.style_eq_none_iff.mpr hn] at hs
  refine ⟨u.unit, ?_, hn⟩
  simp only [List.length_drop, List.length_take] at hi
  rw [List.getElem?_drop, List.getElem?_take_of_lt (by omega), Document.toPlainText,
    List.getElem?_map, hu, Option.map_some]

-- The selected text is kept, and so is the style of each of its text runs.
theorem createSelectedTextController_keeps (q : Editor ν) {c : QuillController ν}
    (h : c.selection.start < c.selection.stop) (hl : c.selection.stop ≤ c.document.length) :
    ∃ selectedText c', getPlainTextSelection c = some selectedText ∧
      createSelectedTextController q c = some c' ∧
      c'.document.toPlainText = selectedText ++ [newline] ∧
      ∀ i < selectedText.length, ∀ style, c.document.styleAt (c.selection.start + i) = some style →
        c'.document.styleAt i = some style := by
  have ht := getPlainTextSelection_eq (Nat.le_of_lt h) hl
  obtain ⟨c', hc, hp⟩ := createSelectedTextController_painted (q := q) ht
  refine ⟨_, c', ht, hc, ?_, fun i hi style hs => ?_⟩
  · rw [Document.toPlainText, hp.unit_eq]
    simp [Function.comp_def, StyledUnit.newline]
  · have hk : c.selection.start + i < c.selection.stop := by
      simp only [List.length_drop, List.length_take] at hi
      omega
    obtain ⟨pre, a, post, he, hpre, ha, hpost⟩ :=
      exists_entry (Nat.zero_le _) (Nat.le_add_right ..) hk hs
    rw [←q.selectionStyles_eq _ _ h] at he
    simp only [Nat.add_sub_cancel_left] at hpre ha hpost
    obtain ⟨u, hu, hn⟩ := getElem?_selectedText ht hs hi
    have hl : i < (List.map (StyledUnit.unstyled (ν := ν)) _).length := List.length_map .. ▸ hi
    rw [Document.styleAt, hp.put_eq pre a style post he i hi hpre ha hpost,
      List.getElem?_append_left hl, List.getElem?_map, hu]
    exact StyledUnit.style_put_unstyled hn style

def bold : Style Bool :=
  Finmap.singleton "bold" true

def italic : Style Bool :=
  Finmap.singleton "italic" true

def letterA : TextUnit :=
  ⟨97, by decide⟩

-- Two lines: the first one starts with two bold letters, the second one is a letter in italics.
def twoLines : Document Bool where
  body := [
    .run ⟨[letterA, ⟨98, by decide⟩], bold, by simp⟩,
    .run ⟨[⟨99, by decide⟩], ∅, by simp⟩,
    .newline,
    .run ⟨[⟨100, by decide⟩], italic, by simp⟩
  ]

theorem keeps_twoLines : ∃ selectedText c',
    getPlainTextSelection ⟨twoLines, ⟨1, 5⟩⟩ = some selectedText ∧
    createSelectedTextController unitEditor ⟨twoLines, ⟨1, 5⟩⟩ = some c' ∧
    c'.document.toPlainText = selectedText ++ [newline] ∧
    ∀ i < selectedText.length, ∀ style, twoLines.styleAt (1 + i) = some style →
      c'.document.styleAt i = some style :=
  createSelectedTextController_keeps unitEditor (by decide) (by decide)

end WordSelector
