import FeelingsOverflow.RichText.Editor

open RichText

structure QuillController (ν : Type) where
  document : Document ν
  selection : Selection

namespace QuillController

variable {ν : Type} (q : Editor ν)

def basic : QuillController ν where
  document  := ⟨[]⟩
  selection := ⟨0, 0⟩

def compose (c : QuillController ν) (text : List CodeUnit) : QuillController ν :=
  { c with document := q.compose c.document text }

def formatTextStyle (c : QuillController ν) (index len : Nat) (style : Style ν) :
    QuillController ν :=
  { c with document := q.formatTextStyle c.document index len style }

def getAllIndividualSelectionStyles (c : QuillController ν) : List (OffsetValue (Style ν)) :=
  q.getAllIndividualSelectionStyles c.document c.selection

end QuillController

namespace WordSelector

-- `text.substring(start, stop)`, which throws when the range is not in the text.
def substring (text : List CodeUnit) (start stop : Nat) : Option (List CodeUnit) :=
  if start ≤ stop ∧ stop ≤ text.length then some ((text.take stop).drop start) else none

variable {ν : Type} (q : Editor ν)

def getPlainTextSelection (controller : QuillController ν) : Option (List CodeUnit) :=
  substring controller.document.toPlainText controller.selection.start controller.selection.stop

-- The loop over the styles from `index` on. Each of them ends at the offset which has its index in
-- `endIndex`.
def formatStyles (endIndex : List Nat) :
    Nat → List (OffsetValue (Style ν)) → QuillController ν → Option (QuillController ν)
  | _, [], controller                               => some controller
  | index, ⟨startOffset, style⟩ :: rest, controller => do
    let stop ← endIndex[index]?
    formatStyles endIndex (index + 1) rest <|
      controller.formatTextStyle q startOffset (stop - startOffset) style

def createSelectedTextController (originalController : QuillController ν) :
    Option (QuillController ν) := do
  let selectedText ← getPlainTextSelection originalController
  let selectedController := QuillController.basic.compose q selectedText
  match originalController.getAllIndividualSelectionStyles q with
  | [] => return selectedController
  | [textStyle] =>
    return selectedController.formatTextStyle q textStyle.offset selectedText.length textStyle.value
  | textStyle :: textStyles =>
    let endIndex := textStyles.map OffsetValue.offset ++ [selectedText.length]
    formatStyles q endIndex 0 (textStyle :: textStyles) selectedController

end WordSelector
