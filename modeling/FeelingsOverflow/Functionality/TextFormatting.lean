import FeelingsOverflow.Functionality.WordSelector

open RichText

-- The value of an attribute.
inductive AttributeValue
  | bool (b : Bool)
  | int (i : Int)
  | string (s : String)
  deriving DecidableEq, Repr, Countable

def fontAttribute (fontFamily : String) : Style AttributeValue :=
  Finmap.singleton "font" (.string fontFamily)

def sizeAttribute (size : String) : Style AttributeValue :=
  Finmap.singleton "size" (.string size)

namespace TextFormatting

variable (q : Editor AttributeValue) (quillController : QuillController AttributeValue)

def formatTextStyle (fontFamily : String) : QuillController AttributeValue :=
  quillController.formatTextStyle q 0 quillController.document.length (fontAttribute fontFamily)

def formatSize (size : String) : QuillController AttributeValue :=
  quillController.formatTextStyle q 0 quillController.document.length (sizeAttribute size)

-- A unit in the given font and size.
def formatted (fontFamily size : String) (u : StyledUnit AttributeValue) :
    StyledUnit AttributeValue :=
  u.put (fontAttribute fontFamily) |>.put (sizeAttribute size)

theorem units_format (fontFamily size : String) :
    (formatSize q (formatTextStyle q quillController fontFamily) size).document.units =
      quillController.document.units.map (formatted fontFamily size) := by
  simp only [formatSize, formatTextStyle, QuillController.formatTextStyle,
    q.units_formatTextStyle_all, List.map_map]
  rfl

-- What a font and a size make of a style.
def formattedStyle (fontFamily size : String) (s : Style AttributeValue) : Style AttributeValue :=
  (s.insert "font" (.string fontFamily)).insert "size" (.string size)

theorem singleton_union (key : String) (value : AttributeValue) (s : Style AttributeValue) :
    Finmap.singleton key value ∪ s = s.insert key value := by
  have h : (Finmap.singleton key value : Style AttributeValue) = Finmap.insert key value ∅ := rfl
  rw [h, ←Finmap.insert_union, Finmap.empty_union]

theorem style_formatted (fontFamily size : String) (u : StyledUnit AttributeValue) :
    (formatted fontFamily size u).style = u.style.map (formattedStyle fontFamily size) := by
  simp only [formatted, StyledUnit.put, fontAttribute, sizeAttribute, singleton_union,
    Option.map_map]
  rfl

theorem formattedStyle_formattedStyle (f₁ f₂ size : String) (s : Style AttributeValue) :
    formattedStyle f₂ size (formattedStyle f₁ size s) = formattedStyle f₂ size s := by
  have h : "size" ≠ "font" := by decide
  simp only [formattedStyle, Finmap.insert_insert_of_ne _ h, Finmap.insert_insert]

theorem formattedStyle_eq_self_iff (fontFamily size : String) (s : Style AttributeValue) :
    formattedStyle fontFamily size s = s ↔
      s.lookup "font" = some (.string fontFamily) ∧ s.lookup "size" = some (.string size) := by
  constructor
  · intro h
    rw [←h, formattedStyle]
    simp [Finmap.lookup_insert, Finmap.lookup_insert_of_ne]
  · intro ⟨hf, hs⟩
    apply Finmap.ext_lookup
    intro key
    simp only [formattedStyle]
    by_cases h₁ : key = "size"
    case pos => rw [h₁, Finmap.lookup_insert, hs]
    case neg =>
      rw [Finmap.lookup_insert_of_ne _ h₁]
      by_cases h₂ : key = "font"
      case pos => rw [h₂, Finmap.lookup_insert, hf]
      case neg => rw [Finmap.lookup_insert_of_ne _ h₂]

theorem formatted_formatted (f₁ f₂ size : String) (u : StyledUnit AttributeValue) :
    formatted f₂ size (formatted f₁ size u) = formatted f₂ size u := by
  apply StyledUnit.ext
  · rfl
  · simp [style_formatted, Function.comp_def, formattedStyle_formattedStyle]

-- A format changes nothing in exactly those units that are in the font and of the size.
theorem formatted_eq_self_iff (fontFamily size : String) (u : StyledUnit AttributeValue) :
    formatted fontFamily size u = u ↔ ∀ s, u.style = some s →
      s.lookup "font" = some (.string fontFamily) ∧ s.lookup "size" = some (.string size) := by
  simp only [StyledUnit.ext_iff, style_formatted, ←formattedStyle_eq_self_iff]
  cases u.style
  case none   => simp [formatted]
  case some s => simp [formatted]

end TextFormatting
