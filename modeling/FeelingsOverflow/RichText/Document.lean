import Mathlib

namespace RichText

abbrev CodeUnit := UInt16

def newline : CodeUnit := 10

-- The attributes of a text, each with its value.
abbrev Style (ν : Type) := Finmap fun _ : String => ν

structure OffsetValue (α : Type) where
  offset : Nat
  value : α

variable {ν : Type}

-- A unit within a line.
abbrev TextUnit := { u : CodeUnit // u ≠ newline }

-- A text of a single style within a line.
structure TextRun (ν : Type) where
  text : List TextUnit
  style : Style ν
  nonempty : text ≠ []

inductive Node (ν : Type)
  | run (r : TextRun ν)
  | newline

-- A unit of the text. Only newlines are without a style.
@[ext]
structure StyledUnit (ν : Type) where
  unit : CodeUnit
  style : Option (Style ν)
  style_eq_none_iff : style = none ↔ unit = newline

namespace StyledUnit

def newline : StyledUnit ν :=
  ⟨RichText.newline, none, by simp⟩

def text (u : TextUnit) (s : Style ν) : StyledUnit ν :=
  ⟨u, some s, by simp [u.property]⟩

def unstyled (u : CodeUnit) : StyledUnit ν :=
  if h : u = RichText.newline then newline else text ⟨u, h⟩ ∅

def put (u : StyledUnit ν) (s : Style ν) : StyledUnit ν :=
  ⟨u.unit, u.style.map (s ∪ ·), by simp [u.style_eq_none_iff]⟩

@[simp]
theorem unit_put (u : StyledUnit ν) (s : Style ν) : (u.put s).unit = u.unit :=
  rfl

@[simp]
theorem newline_put (s : Style ν) : newline.put s = newline :=
  rfl

@[simp]
theorem unit_unstyled (u : CodeUnit) : (unstyled u : StyledUnit ν).unit = u := by
  simp only [unstyled]
  split
  case isTrue h => exact h.symm
  case isFalse  => rfl

theorem style_put_unstyled (h : u ≠ RichText.newline) (s : Style ν) :
    ((unstyled u).put s).style = some s := by
  simp [unstyled, h, text, put]

end StyledUnit

instance countableChar : Countable Char :=
  Function.Injective.countable (f := Char.toNat) fun _ _ => Char.toNat_inj.mp

instance countableString : Countable String :=
  Function.Injective.countable (f := String.toList) fun _ _ => String.toList_inj.mp

instance Style.countable [Countable ν] : Countable (Style ν) :=
  Function.Injective.countable (f := Finmap.entries) fun _ _ => Finmap.ext

def StyledUnit.toProd (u : StyledUnit ν) : CodeUnit × Option (Style ν) :=
  (u.unit, u.style)

theorem StyledUnit.toProd_injective : (StyledUnit.toProd (ν := ν)).Injective := by
  intro u v h
  exact StyledUnit.ext (congrArg Prod.fst h) (congrArg Prod.snd h)

instance StyledUnit.countable [Countable ν] : Countable (StyledUnit ν) :=
  StyledUnit.toProd_injective.countable

def Node.units : Node ν → List (StyledUnit ν)
  | run r   => r.text.map (.text · r.style)
  | newline => [.newline]

def units (ns : List (Node ν)) : List (StyledUnit ν) :=
  ns.flatMap Node.units

-- A document is a sequence of lines, each of which is a sequence of text runs up to a newline.
structure Document (ν : Type) where
  body : List (Node ν)

namespace Document

def nodes (d : Document ν) : List (Node ν) :=
  d.body ++ [.newline]

def units (d : Document ν) : List (StyledUnit ν) :=
  RichText.units d.nodes

def toPlainText (d : Document ν) : List CodeUnit :=
  d.units.map StyledUnit.unit

def length (d : Document ν) : Nat :=
  d.units.length

-- The style of the text run which the unit at an index belongs to.
def styleAt (d : Document ν) (i : Nat) : Option (Style ν) :=
  d.units[i]?.bind StyledUnit.style

theorem units_eq (d : Document ν) : d.units = RichText.units d.body ++ [.newline] := by
  simp [units, nodes, RichText.units, Node.units]

@[simp]
theorem length_toPlainText (d : Document ν) : d.toPlainText.length = d.length := by
  simp [toPlainText, length]

end Document

-- Puts a style on the units at the indices from `i` up to `i + n`.
def paint (i n : Nat) (s : Style ν) (us : List (StyledUnit ν)) : List (StyledUnit ν) :=
  us.mapIdx fun j u => if i ≤ j ∧ j < i + n then u.put s else u

@[simp]
theorem length_paint (i n : Nat) (s : Style ν) (us : List (StyledUnit ν)) :
    (paint i n s us).length = us.length :=
  List.length_mapIdx

theorem getElem?_paint (i n : Nat) (s : Style ν) (us : List (StyledUnit ν)) (j : Nat) :
    (paint i n s us)[j]? = us[j]?.map fun u => if i ≤ j ∧ j < i + n then u.put s else u :=
  List.getElem?_mapIdx

theorem getElem?_paint_of_mem (hi : i ≤ j) (hj : j < i + n) (s : Style ν)
    (us : List (StyledUnit ν)) : (paint i n s us)[j]? = us[j]?.map (·.put s) := by
  simp [getElem?_paint, hi, hj]

theorem getElem?_paint_of_not_mem (h : j < i ∨ i + n ≤ j) (s : Style ν)
    (us : List (StyledUnit ν)) : (paint i n s us)[j]? = us[j]? := by
  have hj : ¬(i ≤ j ∧ j < i + n) := by omega
  simp [getElem?_paint, hj]

theorem paint_append_newline (i n : Nat) (s : Style ν) (us : List (StyledUnit ν)) :
    paint i n s (us ++ [.newline]) = paint i n s us ++ [.newline] := by
  simp [paint, List.mapIdx_concat]

@[simp]
theorem map_unit_paint (i n : Nat) (s : Style ν) (us : List (StyledUnit ν)) :
    (paint i n s us).map StyledUnit.unit = us.map StyledUnit.unit := by
  apply List.ext_getElem?
  intro j
  simp only [List.getElem?_map, getElem?_paint, Option.map_map]
  congr! 2
  funext u
  simp [apply_ite]

theorem paint_all (h : us.length ≤ n) (s : Style ν) : paint 0 n s us = us.map (·.put s) := by
  apply List.ext_getElem?
  intro j
  by_cases hj : j < us.length
  case pos => rw [getElem?_paint_of_mem (Nat.zero_le j) (by omega), List.getElem?_map]
  case neg => simp [Nat.not_lt.mp hj]

-- One entry for each text run that intersects the selection, given the index at which the nodes
-- start.
def selectionStyles (start stop : Nat) : Nat → List (Node ν) → List (OffsetValue (Style ν))
  | _, []             => []
  | i, .newline :: ns => selectionStyles start stop (i + 1) ns
  | i, .run r :: ns   =>
    if i < stop ∧ start < i + r.text.length then
      ⟨i - start, r.style⟩ :: selectionStyles start stop (i + r.text.length) ns
    else
      selectionStyles start stop (i + r.text.length) ns

theorem le_offset (h : e ∈ selectionStyles start stop i ns) : i - start ≤ e.offset := by
  induction ns generalizing i
  case nil => cases h
  case cons n ns hi =>
    cases n
    case newline => exact (Nat.sub_le_sub_right (Nat.le_add_right ..) _).trans (hi h)
    case run r =>
      have hr := Nat.sub_le_sub_right (Nat.le_add_right i r.text.length) start
      rw [selectionStyles] at h
      split at h
      case isFalse => exact hr.trans (hi h)
      case isTrue  =>
        cases h
        case head   => exact Nat.le_refl _
        case tail h => exact hr.trans (hi h)

theorem units_cons (n : Node ν) (ns : List (Node ν)) : units (n :: ns) = n.units ++ units ns :=
  List.flatMap_cons

theorem getElem?_append_sub {us vs : List (StyledUnit ν)} (h : i + us.length ≤ k) :
    (us ++ vs)[k - i]? = vs[k - (i + us.length)]? := by
  rw [List.getElem?_append_right (by omega), Nat.sub_sub]

-- The entry of a unit's text run is the last one of those that do not start after the unit.
theorem exists_entry {ns : List (Node ν)} (hi : i ≤ k) (hk : start ≤ k) (hs : k < stop)
    (h : (units ns)[k - i]?.bind StyledUnit.style = some s) :
    ∃ pre a post, selectionStyles start stop i ns = pre ++ ⟨a, s⟩ :: post ∧
      (∀ e ∈ pre, e.offset ≤ k - start) ∧ a ≤ k - start ∧ ∀ e ∈ post, k - start < e.offset := by
  induction ns generalizing i
  case nil => simp [units] at h
  case cons n ns hn =>
    rw [units_cons] at h
    cases n
    case newline =>
      by_cases he : i = k
      case pos => simp [he, Node.units, StyledUnit.newline] at h
      case neg =>
        have hl : i + (Node.newline (ν := ν)).units.length ≤ k := Nat.lt_of_le_of_ne hi he
        rw [getElem?_append_sub hl] at h
        exact hn hl h
    case run r =>
      have hu : (Node.run r).units.length = r.text.length := List.length_map ..
      by_cases hl : i + r.text.length ≤ k
      case pos =>
        rw [getElem?_append_sub (hu ▸ hl), hu] at h
        have ⟨pre, a, post, he, hp, ha, hq⟩ := hn hl h
        rw [selectionStyles, he]
        split
        case isFalse => exact ⟨pre, a, post, rfl, hp, ha, hq⟩
        case isTrue  =>
          refine ⟨⟨i - start, r.style⟩ :: pre, a, post, rfl, ?_, ha, hq⟩
          exact List.forall_mem_cons.mpr ⟨Nat.sub_le_sub_right hi _, hp⟩
      case neg =>
        have hb : k - i < r.text.length := by omega
        rw [List.getElem?_append_left (hu ▸ hb)] at h
        obtain rfl : r.style = s := by simpa [Node.units, StyledUnit.text, hb] using h
        rw [selectionStyles, if_pos (by omega)]
        refine ⟨[], i - start, _, rfl, by simp, Nat.sub_le_sub_right hi _, fun e he => ?_⟩
        have := le_offset he
        omega

end RichText
