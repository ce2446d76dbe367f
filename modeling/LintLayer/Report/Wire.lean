import LintLayer.Json.Record
import LintLayer.Report.Basic

/-!
# The written form of reports

How findings, fixes and reports are read from JSON and written back.  A fix
is one replacement or a list of them, and it is always written as a list.
-/

namespace LintLayer

open Json

namespace Replacement

/-- Reads a range with an optional text. -/
def ofJson? (value : Json) : Option Replacement := do
  let [range, text] ← record? ["range", "text"] value | none
  let (start, stop) ← range.required (asPair? asWord? asWord?)
  let text ← text.orDefault asString? ""
  return ofBounds start stop text

/-- Writes the range and the text. -/
def toJson (replacement : Replacement) : Json :=
  .obj [("range", .arr [ofNat replacement.start, ofNat replacement.stop]),
    ("text", .str replacement.text)]

end Replacement

namespace Fix

/-- Reads a fix that is one replacement. -/
def ofOne? (value : Json) : Option Fix :=
  (Replacement.ofJson? value).map fun replacement => ⟨[replacement]⟩

/-- Reads a fix that is a list of replacements. -/
def ofMany? (value : Json) : Option Fix :=
  (asList? Replacement.ofJson? value).map fun replacements => ⟨replacements⟩

/-- Reads one replacement or a list of them.  All of the value has to be
readable, also where nothing is taken from it. -/
def ofJson? (value : Json) : Option Fix :=
  if value.isReadable then (ofOne? value).or (ofMany? value) else none

/-- Writes the replacements as a list. -/
def toJson (fix : Fix) : Json :=
  .arr (fix.replacements.map Replacement.toJson)

end Fix

namespace Finding

/-- The names of the fields, in order. -/
def fieldNames : List String :=
  ["ruleId", "message", "severity", "line", "column", "endLine", "endColumn", "fix"]

/-- Reads a finding.  Only the message has to be given. -/
def ofJson? (value : Json) : Option Finding := do
  let [rule, message, severity, line, column, endLine, endColumn, fix] ←
    record? fieldNames value | none
  return {
    rule := ← rule.orDefault (asOption? asString?) none
    message := ← message.required asString?
    severity := ← severity.orDefault asUInt8? 0
    line := ← line.orDefault (asOption? asUInt32?) none
    column := ← column.orDefault (asOption? asUInt32?) none
    endLine := ← endLine.orDefault (asOption? asUInt32?) none
    endColumn := ← endColumn.orDefault (asOption? asUInt32?) none
    fix := ← fix.orDefault (asOption? Fix.ofJson?) none }

/-- A number of 32 bits, or null. -/
def positionJson (value : Option UInt32) : Json :=
  ofOption (fun number => ofNat number.toNat) value

/-- Writes every field, but a missing fix not at all. -/
def toJson (finding : Finding) : Json :=
  .obj ([("ruleId", ofOption .str finding.rule),
    ("message", .str finding.message),
    ("severity", ofNat finding.severity.toNat),
    ("line", positionJson finding.line),
    ("column", positionJson finding.column),
    ("endLine", positionJson finding.endLine),
    ("endColumn", positionJson finding.endColumn)] ++
    (finding.fix.map fun fix => ("fix", fix.toJson)).toList)

end Finding

namespace FileResult

/-- Reads the result of one file.  Only the path has to be given. -/
def ofJson? (value : Json) : Option FileResult := do
  let [file, findings, errorCount, warningCount] ←
    record? ["filePath", "messages", "errorCount", "warningCount"] value | none
  return {
    file := ⟨← file.required asString?⟩
    findings := ← findings.orDefault (asList? Finding.ofJson?) []
    errorCount := ← errorCount.orDefault asWord? 0
    warningCount := ← warningCount.orDefault asWord? 0 }

/-- Writes every field. -/
def toJson (result : FileResult) : Json :=
  .obj [("filePath", .str result.file.text),
    ("messages", .arr (result.findings.map Finding.toJson)),
    ("errorCount", ofNat result.errorCount),
    ("warningCount", ofNat result.warningCount)]

end FileResult

namespace Report

/-- Reads a report.  Every field has to be given. -/
def ofJson? (value : Json) : Option Report := do
  let [results, errorCount, warningCount] ←
    record? ["results", "errorCount", "warningCount"] value | none
  return {
    results := ← results.required (asList? FileResult.ofJson?)
    errorCount := ← errorCount.required asWord?
    warningCount := ← warningCount.required asWord? }

/-- Writes every field. -/
def toJson (report : Report) : Json :=
  .obj [("results", .arr (report.results.map FileResult.toJson)),
    ("errorCount", ofNat report.errorCount),
    ("warningCount", ofNat report.warningCount)]

end Report

end LintLayer
