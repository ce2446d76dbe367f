import LintLayer.Path.Basic
import LintLayer.Span
import LintLayer.Text.Measure

/-!
# Edits

An edit replaces a span of a text by a new text.  A list of edits is
applied from the back of the text to its front, so an edit never moves the
spans that are still to come.  An edit whose span leaves the text, or cuts
a character, is left out.

`applyAll` has the exact ends of the spans.  `applyIn` has the ends as the
program computes them, and there is no text where this stops the program.
-/

namespace LintLayer

/-- Replace `span` by `newText`. -/
structure Edit where
  span : Span
  newText : String
  deriving DecidableEq, Repr

/-- The edits of one file. -/
structure FileEdits where
  file : Path
  edits : List Edit
  deriving DecidableEq, Repr

namespace Edit

/-- The text after one edit, if its span can be cut out. -/
def splice? (edit : Edit) (text : List Char) : Option (List Char) := do
  let (before, rest) ← Text.cut? edit.span.start text
  let (_, after) ← Text.cut? edit.span.length rest
  return before ++ edit.newText.toList ++ after

/-- The text after one edit, unchanged when the span cannot be cut out. -/
def splice (edit : Edit) (text : List Char) : List Char :=
  (edit.splice? text).getD text

/-- The text after one edit, with the end of the span as the program computes
it.  The edit is left out unless both ends are boundaries of the text.  An end
that lost its upper bits can come before the start; there is no such range to
replace, and the program stops. -/
def spliceIn (arithmetic : Arithmetic) (edit : Edit) (text : List Char) :
    Option (List Char) := do
  let stop ← edit.span.stopIn arithmetic
  match Text.cut? edit.span.start text, Text.cut? stop text with
  | some (before, _), some (_, after) =>
    if edit.span.start ≤ stop then some (before ++ edit.newText.toList ++ after) else none
  | _, _ => some text

/-- The edits by descending start; equal starts keep their order. -/
def backToFront (edits : List Edit) : List Edit :=
  edits.mergeSort fun a b => decide (b.span.start ≤ a.span.start)

/-- The characters after all edits, applied from the back to the front. -/
def applyChars (text : List Char) (edits : List Edit) : List Char :=
  (backToFront edits).foldl (fun current edit => edit.splice current) text

/-- The text after all edits. -/
def applyAll (text : String) (edits : List Edit) : String :=
  String.ofList (applyChars text.toList edits)

/-- The characters after all edits, one after the other, with the ends as the
program computes them. -/
def spliceAllIn (arithmetic : Arithmetic) (text : List Char) (edits : List Edit) :
    Option (List Char) :=
  edits.foldlM (fun current edit => edit.spliceIn arithmetic current) text

/-- The text after all edits, with the ends as the program computes them. -/
def applyIn (arithmetic : Arithmetic) (text : String) (edits : List Edit) : Option String :=
  (spliceAllIn arithmetic text.toList (backToFront edits)).map String.ofList

end Edit

end LintLayer
