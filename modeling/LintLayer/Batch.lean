import LintLayer.Edit

/-!
# Batches of fixes

A fix is a list of edits that belong together.  Several fixes are reduced
to one batch that can be applied at once: the fixes are taken in the order
of their first edit, and a fix that starts at or before the end of the last
edit taken so far is left out as a whole.

`select` has the exact ends of the edits.  `selectIn` has the ends as the
program computes them, and there is no batch where this stops the program.
-/

namespace LintLayer.Batch

/-- The start of the first edit. -/
def firstStart (fix : List Edit) : Nat :=
  (fix.head?.map fun edit => edit.span.start).getD 0

/-- The fixes that edit anything, by the start of their first edit; equal
starts keep their order. -/
def inOrder (fixes : List (List Edit)) : List (List Edit) :=
  (fixes.filter fun fix => !fix.isEmpty).mergeSort
    fun a b => decide (firstStart a ≤ firstStart b)

/-- Whether a fix starts after the end of the last edit taken so far. -/
def startsAfter (last : Option Edit) (fix : List Edit) : Bool :=
  match last with
  | none => true
  | some edit => edit.span.stop < firstStart fix

/-- The fixes that are taken, in order, after `last` was the last edit
taken. -/
def scan (last : Option Edit) : List (List Edit) → List (List Edit)
  | [] => []
  | fix :: fixes =>
    if startsAfter last fix then fix :: scan (fix.getLast?.or last) fixes
    else scan last fixes

/-- The fixes that make up the batch. -/
def kept (fixes : List (List Edit)) : List (List Edit) :=
  scan none (inOrder fixes)

/-- The edits of the batch. -/
def select (fixes : List (List Edit)) : List Edit :=
  (kept fixes).flatten

/-- Whether a fix starts after the end of the last edit taken so far, with the
end as the program computes it. -/
def startsAfterIn (arithmetic : Arithmetic) (last : Option Edit) (fix : List Edit) :
    Option Bool :=
  match last with
  | none => some true
  | some edit => (edit.span.stopIn arithmetic).map fun stop => decide (stop < firstStart fix)

/-- The fixes that are taken, with the ends as the program computes them. -/
def scanIn (arithmetic : Arithmetic) (last : Option Edit) :
    List (List Edit) → Option (List (List Edit))
  | [] => some []
  | fix :: fixes => do
    if ← startsAfterIn arithmetic last fix then
      return fix :: (← scanIn arithmetic (fix.getLast?.or last) fixes)
    else scanIn arithmetic last fixes

/-- The fixes that make up the batch, with the ends as the program computes
them. -/
def keptIn (arithmetic : Arithmetic) (fixes : List (List Edit)) : Option (List (List Edit)) :=
  scanIn arithmetic none (inOrder fixes)

/-- The edits of the batch, with the ends as the program computes them. -/
def selectIn (arithmetic : Arithmetic) (fixes : List (List Edit)) : Option (List Edit) :=
  (keptIn arithmetic fixes).map List.flatten

end LintLayer.Batch
