import LintLayer.Analyzer.Basic
import LintLayer.Json.Reader
import LintLayer.Report.Wire
import LintLayer.Text.Blank

/-!
# The output of the analyzer

The analyzer writes its report as JSON and its warnings as lines.  A warning
can go on over several lines: the lines after the first one are indented.
-/

namespace LintLayer.Analyzer

/-- The start of the line with which the runtime explains how to trace a
warning. -/
def traceHint : List Char :=
  "(Use `node --trace-warnings".toList

/-- Whether a line belongs to a warning. -/
def isKept (line : List Char) : Bool :=
  let trimmed := Text.trim line
  !trimmed.isEmpty && !traceHint.isPrefixOf trimmed

/-- Whether a line goes on with the warning before it. -/
def isIndented (line : List Char) : Bool :=
  line.head?.any Text.isBlank

/-- Adds a kept line to the warnings so far, the last one first. -/
def addLine (warnings : List (List Char)) (line : List Char) : List (List Char) :=
  match warnings with
  | last :: rest =>
    if isIndented line then (last ++ ' ' :: Text.trim line) :: rest
    else Text.trim line :: warnings
  | [] => [Text.trim line]

/-- The warnings in the lines that were written beside the report. -/
def warnings (stderr : String) : List String :=
  let kept := (Text.lines stderr.toList).filter isKept
  (kept.foldl addLine []).reverse.map String.ofList

/-- The results in the output.  Blank output has none. -/
def results? (stdout : String) : Option (List FileResult) :=
  if (Text.trim stdout.toList).isEmpty then some []
  else (Json.parse? stdout).bind (Json.asList? FileResult.ofJson?)

/-- The outcome of a finished call.  The exit codes 0 and 1 come with a
report. -/
def outcome (captured : Captured) : Except LintError Outcome :=
  if captured.code = some 0 ∨ captured.code = some 1 then
    match results? captured.stdout with
    | some results => .ok ⟨Report.ofResults results, warnings captured.stderr⟩
    | none => .error .undecodable
  else
    .error (.crashed captured.code (String.ofList (Text.trim captured.stderr.toList)))

end LintLayer.Analyzer
