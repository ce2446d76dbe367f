import LintLayer.Path.Basic
import LintLayer.Report.Finding

/-!
# Reports

A report lists the findings of one run of the analyzer, file by file.
-/

namespace LintLayer

/-- The findings of one file, with the analyzer's own counts. -/
structure FileResult where
  file : Path
  findings : List Finding := []
  errorCount : Nat := 0
  warningCount : Nat := 0
  deriving DecidableEq, Repr

/-- The results of one run and the sums of their counts. -/
structure Report where
  results : List FileResult := []
  errorCount : Nat := 0
  warningCount : Nat := 0
  deriving DecidableEq, Repr

namespace Report

/-- The sum of counts in 64 bits.  The upper bits are lost, as in a build that
does not check its sums. -/
def total (counts : List Nat) : Nat :=
  counts.foldr (fun count sum => (count + sum) % Nat.pow 2 64) 0

/-- The report of a list of results. -/
def ofResults (results : List FileResult) : Report :=
  { results
    errorCount := total (results.map FileResult.errorCount)
    warningCount := total (results.map FileResult.warningCount) }

/-- Whether no file has a finding. -/
def isEmpty (report : Report) : Bool :=
  report.results.all fun result => result.findings.isEmpty

/-- The findings of the results whose path is the path of `file` once both
are normalized. -/
def findingsFor (report : Report) (file : Path) : List Finding :=
  (report.results.filter fun result => result.file.normalize.same file.normalize).flatMap
    FileResult.findings

end Report

end LintLayer
