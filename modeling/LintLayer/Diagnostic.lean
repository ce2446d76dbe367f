import LintLayer.Problem

/-!
# Diagnostics

What the host publishes for a file.  A finding becomes one diagnostic at
its span, and a message about the run becomes a warning at the top of the
file.
-/

namespace LintLayer

/-- The category that the host shows. -/
inductive Category where
  | warning
  | error
  | suggestion
  | message
  deriving DecidableEq, Repr

/-- The written form of a category. -/
def Category.label : Category → String
  | .warning => "warning"
  | .error => "error"
  | .suggestion => "suggestion"
  | .message => "message"

/-- One published diagnostic.  `code` is the rule of a finding or the code
of the host, `source` is who found it. -/
structure Diagnostic where
  file : Path
  span : Span
  message : String
  category : Category
  code : Option String := none
  source : Option String := none
  deriving DecidableEq, Repr

namespace Diagnostic

/-- The source of every diagnostic that comes from the analyzer. -/
def lintSource : String := "eslint"

/-- The category of a finding.  It is a warning unless errors are shown as
errors and it is one. -/
def categoryOf (finding : Finding) (asWarnings : Bool) : Category :=
  if !asWarnings && finding.isError then .error else .warning

/-- The diagnostic of a problem. -/
def ofProblem (file : Path) (problem : Problem) (asWarnings : Bool) : Diagnostic :=
  { file
    span := problem.span
    message := problem.finding.labelledMessage
    category := categoryOf problem.finding asWarnings
    code := problem.finding.rule
    source := some lintSource }

/-- A warning about the run, at the top of the file. -/
def operational (file : Path) (message : String) : Diagnostic :=
  { file, span := Span.emptyAt 0, message, category := .warning, source := some lintSource }

end Diagnostic

end LintLayer
