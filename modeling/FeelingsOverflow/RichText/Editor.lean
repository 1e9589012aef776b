import FeelingsOverflow.RichText.Document

namespace RichText

-- The text between `start` and `stop` is selected.
structure Selection where
  start : Nat
  stop : Nat
  deriving DecidableEq, Repr

-- The operations of a rich text editor, with what they do to the units of a document. Composing a
-- text inserts it at the start.
structure Editor (ν : Type) where
  compose : Document ν → List CodeUnit → Document ν
  formatTextStyle : Document ν → Nat → Nat → Style ν → Document ν
  getAllIndividualSelectionStyles : Document ν → Selection → List (OffsetValue (Style ν))
  units_compose : ∀ d text, (compose d text).units = text.map .unstyled ++ d.units
  units_formatTextStyle : ∀ d i n s, (formatTextStyle d i n s).units = paint i n s d.units
  selectionStyles_eq : ∀ (d : Document ν) selection, selection.start < selection.stop →
    getAllIndividualSelectionStyles d selection =
      selectionStyles selection.start selection.stop 0 d.nodes

namespace Editor

variable {ν : Type} (q : Editor ν)

theorem units_formatTextStyle_all (d : Document ν) (s : Style ν) :
    (q.formatTextStyle d 0 d.length s).units = d.units.map (·.put s) :=
  q.units_formatTextStyle .. |>.trans <| paint_all (Nat.le_refl _) s

end Editor

section

variable {ν : Type} [DecidableEq ν]

-- Adds a unit at the start, to the first text run if that has the same style.
def consUnit (u : TextUnit) (s : Style ν) : List (Node ν) → List (Node ν)
  | .run r :: ns =>
    if r.style = s then
      .run ⟨u :: r.text, s, by simp⟩ :: ns
    else
      .run ⟨[u], s, by simp⟩ :: .run r :: ns
  | ns           => .run ⟨[u], s, by simp⟩ :: ns

-- Groups units to text runs and newlines.
def ofUnits : List (StyledUnit ν) → List (Node ν)
  | []                   => []
  | ⟨_, none, _⟩ :: us   => .newline :: ofUnits us
  | ⟨u, some s, h⟩ :: us => consUnit ⟨u, by simpa using h⟩ s (ofUnits us)

theorem units_consUnit (u : TextUnit) (s : Style ν) (ns : List (Node ν)) :
    units (consUnit u s ns) = .text u s :: units ns := by
  cases ns
  case nil => rfl
  case cons n ns =>
    cases n
    case newline => rfl
    case run r =>
      rw [consUnit]
      split
      case isTrue h  => subst h; rfl
      case isFalse h => rfl

theorem units_ofUnits (us : List (StyledUnit ν)) : units (ofUnits us) = us := by
  fun_induction ofUnits us
  case case1 => rfl
  case case2 u h us hi =>
    have hu : u = newline := h.mp rfl
    subst hu
    exact congrArg _ hi
  case case3 u s h us hi =>
    rw [units_consUnit, hi]
    rfl

-- The editor which computes on units.
def unitEditor : Editor ν where
  compose d text := ⟨ofUnits <| text.map .unstyled ++ units d.body⟩
  formatTextStyle d i n s := ⟨ofUnits <| paint i n s (units d.body)⟩
  getAllIndividualSelectionStyles d selection :=
    selectionStyles selection.start selection.stop 0 d.nodes
  units_compose d text := by
    simp [Document.units_eq, units_ofUnits]
  units_formatTextStyle d i n s := by
    simp [Document.units_eq, units_ofUnits, paint_append_newline]
  selectionStyles_eq _ _ _ := rfl

end

end RichText
