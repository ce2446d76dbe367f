import LintLayer.Options.Basic
import LintLayer.Toml.Parser

/-!
# Options from a file

The options as the root table of a TOML document.  Keys that are no option
are skipped; an option of the wrong kind makes the whole document wrong.
-/

namespace LintLayer.Options

open Toml (Value)

/-- A truth value. -/
def boolOfToml? : Value → Option Bool
  | .boolean value => some value
  | _ => none

/-- A text. -/
def stringOfToml? : Value → Option String
  | .string text => some text
  | _ => none

/-- One pattern, or a list of them. -/
def patternsOfToml? : Value → Option (List String)
  | .string pattern => some [pattern]
  | .array items => items.mapM stringOfToml?
  | _ => none

/-- A package manager: its name, or a table with the name as its only key
and nothing under it. -/
def managerOfToml? : Value → Option PackageManager
  | .string name => PackageManager.ofName? name
  | .table _ [(name, .table _ [])] => PackageManager.ofName? name
  | .table _ [(name, .array [])] => PackageManager.ofName? name
  | _ => none

/-- Sets the option of one entry. -/
def setEntry? (options : Options) (entry : String × Value) : Option Options :=
  let (key, value) := entry
  if key = "suppressWhileTypeErrorsPresent" then do
    return { options with suppressWhileHostReports := ← boolOfToml? value }
  else if key = "ignoreDefinitionFiles" then do
    return { options with ignoreDefinitionFiles := ← boolOfToml? value }
  else if key = "jsEnable" then do
    return { options with lintScripts := ← boolOfToml? value }
  else if key = "exclude" then do
    return { options with exclude := ← patternsOfToml? value }
  else if key = "packageManager" then do
    return { options with packageManager := ← managerOfToml? value }
  else if key = "alwaysShowRuleFailuresAsWarnings" then do
    return { options with alwaysWarnings := some (← boolOfToml? value) }
  else if key = "configFile" then do
    return { options with configFile := some ⟨← stringOfToml? value⟩ }
  else if key = "nodePath" then do
    return { options with nodePath := some ⟨← stringOfToml? value⟩ }
  else if key = "allowInlineConfig" then do
    return { options with allowInlineConfig := ← boolOfToml? value }
  else if key = "reportUnusedDisableDirectives" then do
    return { options with reportUnusedDirectives := ← boolOfToml? value }
  else some options

/-- The options of a document. -/
def ofToml? (text : String) : Option Options := do
  (← Toml.parse? text).foldlM setEntry? {}

end LintLayer.Options
