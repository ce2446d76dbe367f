import LintLayer.Json.Record
import LintLayer.Options.Basic
import LintLayer.Text.Quoted

/-!
# Options from a notification

The host sends the options as a JSON value.  Its members are looked at in
the order of their keys and the first one that does not fit is reported.
-/

namespace LintLayer.Options

open Json

/-- Why a value is no set of options. -/
inductive Mismatch where
  /-- A value of another kind than the wanted one. -/
  | kind (found : Json) (wanted : String)
  /-- No package manager has this name. -/
  | unknownManager (name : String)
  /-- An object that should have one key and has another number of them. -/
  | notOneKey
  /-- Neither a pattern nor a list of patterns. -/
  | noPatterns
  /-- More items than there are options. -/
  | tooMany (count : Nat)
  deriving Repr

/-- How a value is named in a message. -/
def describe : Json → String
  | .null => "null"
  | .bool true => "boolean `true`"
  | .bool false => "boolean `false`"
  | .int value => s!"integer `{value}`"
  | .float value => "floating point `" ++ value.render ++ "`"
  | .str value => "string " ++ Text.quoted value
  | .arr _ => "sequence"
  | .obj _ => "map"
  | .unreadable => "null"

/-- The message of a mismatch. -/
def Mismatch.message : Mismatch → String
  | .kind found wanted => "invalid type: " ++ describe found ++ ", expected " ++ wanted
  | .unknownManager name =>
    "unknown variant `" ++ name ++ "`, expected one of `npm`, `pnpm`, `yarn`"
  | .notOneKey => "invalid value: map, expected map with a single key"
  | .noPatterns => "data did not match any variant of untagged enum ExcludeRepr"
  | .tooMany count => s!"invalid length {count}, expected fewer elements in array"

/-- A truth value. -/
def readBool : Json → Except Mismatch Bool
  | .bool value => .ok value
  | value => .error (.kind value "a boolean")

/-- A path. -/
def readPath : Json → Except Mismatch Path
  | .str value => .ok ⟨value⟩
  | value => .error (.kind value "path string")

/-- Null, or a value. -/
def readOption {α : Type} (read : Json → Except Mismatch α) : Json → Except Mismatch (Option α)
  | .null => .ok none
  | value => (read value).map some

/-- The manager of a name. -/
def readManagerName (name : String) : Except Mismatch PackageManager :=
  match PackageManager.ofName? name with
  | some manager => .ok manager
  | none => .error (.unknownManager name)

/-- A package manager: its name, or an object with the name as its only
key. -/
def readManager : Json → Except Mismatch PackageManager
  | .str name => readManagerName name
  | .obj [(name, value)] => do
    let manager ← readManagerName name
    match value with
    | .null => return manager
    | value => throw (.kind value "unit")
  | .obj _ => .error .notOneKey
  | value => .error (.kind value "string or map")

/-- One pattern, or a list of them. -/
def readPatterns : Json → Except Mismatch (List String)
  | .str pattern => .ok [pattern]
  | value =>
    match asList? asString? value with
    | some patterns => .ok patterns
    | none => .error .noPatterns

/-- How one option is set from a value. -/
structure Field where
  key : String
  set : Json → Options → Except Mismatch Options

/-- The options that can be set, in order. -/
def fields : List Field :=
  [⟨"suppressWhileTypeErrorsPresent", fun value options => do
      return { options with suppressWhileHostReports := ← readBool value }⟩,
    ⟨"ignoreDefinitionFiles", fun value options => do
      return { options with ignoreDefinitionFiles := ← readBool value }⟩,
    ⟨"jsEnable", fun value options => do
      return { options with lintScripts := ← readBool value }⟩,
    ⟨"exclude", fun value options => do
      return { options with exclude := ← readPatterns value }⟩,
    ⟨"packageManager", fun value options => do
      return { options with packageManager := ← readManager value }⟩,
    ⟨"alwaysShowRuleFailuresAsWarnings", fun value options => do
      return { options with alwaysWarnings := ← readOption readBool value }⟩,
    ⟨"configFile", fun value options => do
      return { options with configFile := ← readOption readPath value }⟩,
    ⟨"nodePath", fun value options => do
      return { options with nodePath := ← readOption readPath value }⟩,
    ⟨"allowInlineConfig", fun value options => do
      return { options with allowInlineConfig := ← readBool value }⟩,
    ⟨"reportUnusedDisableDirectives", fun value options => do
      return { options with reportUnusedDirectives := ← readBool value }⟩]

/-- Sets the option of one member.  An unknown key sets nothing. -/
def setMember (options : Options) (entry : String × Json) : Except Mismatch Options :=
  match fields.find? fun field => field.key == entry.1 with
  | some field => field.set entry.2 options
  | none => .ok options

/-- Sets the options one after the other. -/
def setItem (options : Options) (item : Field × Json) : Except Mismatch Options :=
  item.1.set item.2 options

/-- The options of a notification. -/
def ofJson : Json → Except Mismatch Options
  | .obj members => (members.mergeSort fun a b => decide (a.1 ≤ b.1)).foldlM setMember {}
  | .arr items => do
    let options ← (fields.zip items).foldlM setItem {}
    if fields.length < items.length then throw (.tooMany items.length)
    return options
  | value => .error (.kind value "struct PluginOptions")

end LintLayer.Options
