/-!
# Findings

What the analyzer reports about one place of a file, with the fix it
proposes.  Lines and columns count from one and columns and fix ranges are
in UTF-16 code units; nothing here looks at a text.
-/

namespace LintLayer

/-- One proposed replacement of a range of code units. -/
structure Replacement where
  start : Nat
  stop : Nat
  text : String
  start_le_stop : start ≤ stop
  deriving DecidableEq, Repr

namespace Replacement

/-- The replacement of `start` to `stop`.  A stop before the start is
raised to the start. -/
def ofBounds (start stop : Nat) (text : String) : Replacement :=
  ⟨start, max stop start, text, Nat.le_max_right stop start⟩

/-- Whether it deletes nothing and inserts nothing. -/
def isEmpty (replacement : Replacement) : Bool :=
  replacement.start == replacement.stop && replacement.text.isEmpty

end Replacement

/-- A fix is a list of replacements that belong together. -/
structure Fix where
  replacements : List Replacement
  deriving DecidableEq, Repr

/-- Whether the fix changes anything. -/
def Fix.hasEffect (fix : Fix) : Bool :=
  fix.replacements.any fun replacement => !replacement.isEmpty

/-- One problem that the analyzer reports.  Without a line, or with line
zero, it is about the file as a whole. -/
structure Finding where
  rule : Option String := none
  message : String
  severity : UInt8 := 0
  line : Option UInt32 := none
  column : Option UInt32 := none
  endLine : Option UInt32 := none
  endColumn : Option UInt32 := none
  fix : Option Fix := none
  deriving DecidableEq, Repr

namespace Finding

/-- The severity of an error.  Every other one is a warning. -/
def errorSeverity : UInt8 := 2

/-- Whether the finding is an error. -/
def isError (finding : Finding) : Bool :=
  finding.severity == errorSeverity

/-- Whether the finding has a fix that changes anything. -/
def isFixable (finding : Finding) : Bool :=
  finding.fix.any Fix.hasEffect

/-- The message with the rule in parentheses. -/
def labelledMessage (finding : Finding) : String :=
  match finding.rule with
  | some rule => finding.message ++ " (" ++ rule ++ ")"
  | none => finding.message

end Finding

end LintLayer
