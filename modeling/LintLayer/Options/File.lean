import LintLayer.Machine
import LintLayer.Options.Document

/-!
# Loading options

The options of a file on a machine.
-/

namespace LintLayer

/-- Why the options of a file could not be loaded. -/
inductive OptionsError where
  | unreadable (path : Path) (fault : Fault)
  | malformed (path : Path)
  deriving DecidableEq, Repr

namespace OptionsError

/-- The file that was at fault. -/
def path : OptionsError → Path
  | .unreadable path _ => path
  | .malformed path => path

/-- The wording of the error, up to what the reader of the document
says. -/
def message : OptionsError → String
  | .unreadable path fault => "failed to read config at " ++ path.text ++ ": " ++ fault.message
  | .malformed path => "failed to parse config at " ++ path.text ++ ":"

end OptionsError

/-- Loads the options of a file. -/
def Options.load (machine : Machine) (path : Path) : Except OptionsError Options :=
  match machine.readText path with
  | .error fault => .error (.unreadable path fault)
  | .ok text =>
    match Options.ofToml? text with
    | some options => .ok options
    | none => .error (.malformed path)

end LintLayer
