import LintLayer.Action
import LintLayer.Diagnostic
import LintLayer.Json.Record

/-!
# The written form of what the host sees

How spans, edits, diagnostics and code actions are read from JSON and
written back.
-/

namespace LintLayer

open Json

namespace Span

/-- Reads start and length. -/
def ofJson? (value : Json) : Option Span := do
  let [start, length] ← record? ["start", "length"] value | none
  return ⟨← start.required asWord?, ← length.required asWord?⟩

/-- Writes start and length. -/
def toJson (span : Span) : Json :=
  .obj [("start", ofNat span.start), ("length", ofNat span.length)]

end Span

namespace Edit

/-- Reads span and new text. -/
def ofJson? (value : Json) : Option Edit := do
  let [span, newText] ← record? ["span", "newText"] value | none
  return ⟨← span.required Span.ofJson?, ← newText.required asString?⟩

/-- Writes span and new text. -/
def toJson (edit : Edit) : Json :=
  .obj [("span", edit.span.toJson), ("newText", .str edit.newText)]

end Edit

namespace FileEdits

/-- Reads the file and its edits. -/
def ofJson? (value : Json) : Option FileEdits := do
  let [file, edits] ← record? ["fileName", "textChanges"] value | none
  return ⟨⟨← file.required asString?⟩, ← edits.required (asList? Edit.ofJson?)⟩

/-- Writes the file and its edits. -/
def toJson (change : FileEdits) : Json :=
  .obj [("fileName", .str change.file.text),
    ("textChanges", .arr (change.edits.map Edit.toJson))]

end FileEdits

namespace Category

/-- The category of a label. -/
def ofLabel? (label : String) : Option Category :=
  if label = "warning" then some .warning
  else if label = "error" then some .error
  else if label = "suggestion" then some .suggestion
  else if label = "message" then some .message
  else none

/-- Reads a label. -/
def ofJson? : Json → Option Category :=
  asChoice? ofLabel?

/-- Writes the label. -/
def toJson (category : Category) : Json :=
  .str category.label

end Category

namespace Diagnostic

/-- Reads a diagnostic.  In an object, code and source may be absent. -/
def ofJson? (value : Json) : Option Diagnostic := do
  let [file, span, message, category, code, source] ←
    record? ["file", "span", "message", "category", "code", "source"] value | none
  return {
    file := ⟨← file.required asString?⟩
    span := ← span.required Span.ofJson?
    message := ← message.required asString?
    category := ← category.required Category.ofJson?
    code := ← code.orAbsent (asOption? asString?) none
    source := ← source.orAbsent (asOption? asString?) none }

/-- Writes every field. -/
def toJson (diagnostic : Diagnostic) : Json :=
  .obj [("file", .str diagnostic.file.text),
    ("span", diagnostic.span.toJson),
    ("message", .str diagnostic.message),
    ("category", diagnostic.category.toJson),
    ("code", ofOption .str diagnostic.code),
    ("source", ofOption .str diagnostic.source)]

end Diagnostic

namespace CodeAction

/-- Reads an action.  The group and its description may be missing. -/
def ofJson? (value : Json) : Option CodeAction := do
  let [name, description, changes, group, groupDescription] ←
    record? ["fixName", "description", "changes", "fixId", "fixAllDescription"] value | none
  return {
    name := ← name.required asString?
    description := ← description.required asString?
    changes := ← changes.required (asList? FileEdits.ofJson?)
    group := ← group.orDefault (asOption? asString?) none
    groupDescription := ← groupDescription.orDefault (asOption? asString?) none }

/-- Writes the fields, but a missing group or group description not at
all. -/
def toJson (action : CodeAction) : Json :=
  .obj ([("fixName", .str action.name),
    ("description", .str action.description),
    ("changes", .arr (action.changes.map FileEdits.toJson))] ++
    (action.group.map fun group => ("fixId", Json.str group)).toList ++
    (action.groupDescription.map fun text => ("fixAllDescription", Json.str text)).toList)

end CodeAction

namespace CombinedActions

/-- Reads the edits and the commands.  The commands may be missing. -/
def ofJson? (value : Json) : Option CombinedActions := do
  let [changes, commands] ← record? ["changes", "commands"] value | none
  return {
    changes := ← changes.required (asList? FileEdits.ofJson?)
    commands := ← commands.orDefault (asList? asJson?) [] }

/-- Writes the edits and the commands. -/
def toJson (actions : CombinedActions) : Json :=
  .obj [("changes", .arr (actions.changes.map FileEdits.toJson)),
    ("commands", .arr actions.commands)]

end CombinedActions

end LintLayer
