import LintLayer.LineTable

/-!
# Problems

A problem is a finding placed on one snapshot: its span, the edits of its
fix, and the edit that silences its rule.  The problems of a file are kept
in the order in which their spans were first seen, and a span that is set
again replaces the problem in its slot.
-/

namespace LintLayer

/-- A finding placed on a snapshot. -/
structure Problem where
  finding : Finding
  span : Span
  fixable : Bool
  edits : List Edit
  disableEdit : Option Edit
  deriving DecidableEq, Repr

namespace Problem

/-- The edit of a replacement. -/
def editOf (table : LineTable) (replacement : Replacement) : Edit :=
  { span := Span.ofBounds (table.offsetOfUnits replacement.start)
      (table.offsetOfUnits replacement.stop)
    newText := replacement.text }

/-- The problem of a finding on the snapshot of `table`. -/
def ofFinding (table : LineTable) (finding : Finding) : Problem :=
  { finding
    span := table.spanOf finding
    fixable := finding.isFixable
    edits := match finding.fix with
      | some fix => fix.replacements.map (editOf table)
      | none => []
    disableEdit := finding.rule.map fun rule =>
      table.disableComment (finding.line.getD 1) rule }

/-- The rule that was broken. -/
def rule (problem : Problem) : Option String :=
  problem.finding.rule

end Problem

/-- The problems of a file by the order of their spans, and the slot of each
span. -/
structure ProblemSet where
  problems : List Problem
  slots : List (Span × Nat)
  deriving DecidableEq, Repr

namespace ProblemSet

/-- No problems. -/
def empty : ProblemSet :=
  ⟨[], []⟩

/-- Puts a problem into the slot of its span, or into a new one. -/
def set (registered : ProblemSet) (problem : Problem) : ProblemSet :=
  match registered.slots.lookup problem.span with
  | some slot => { registered with problems := registered.problems.set slot problem }
  | none =>
    { problems := registered.problems ++ [problem]
      slots := (problem.span, registered.problems.length) :: registered.slots }

/-- The problem at exactly a span. -/
def get? (registered : ProblemSet) (span : Span) : Option Problem :=
  (registered.slots.lookup span).bind fun slot => registered.problems[slot]?

/-- The problems of a list of findings. -/
def ofFindings (table : LineTable) (findings : List Finding) : ProblemSet :=
  findings.foldl (fun registered finding => registered.set (Problem.ofFinding table finding)) empty

/-- The problems that can be fixed. -/
def fixable (registered : ProblemSet) : List Problem :=
  registered.problems.filter Problem.fixable

/-- The problems of one rule that can be fixed. -/
def fixableFor (registered : ProblemSet) (rule : String) : List Problem :=
  registered.fixable.filter fun problem => problem.rule == some rule

/-- The number of problems. -/
def size (registered : ProblemSet) : Nat :=
  registered.problems.length

/-- Whether there is no problem. -/
def isEmpty (registered : ProblemSet) : Bool :=
  registered.problems.isEmpty

end ProblemSet

end LintLayer
