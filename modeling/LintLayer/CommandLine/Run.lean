import LintLayer.Analyzer.Resolver
import LintLayer.CommandLine.Arguments
import LintLayer.Layer.Basic
import LintLayer.Options.File

/-!
# Command-line runs

A run lints the files one after the other through a layer whose host is the
disk, and prints one line for each diagnostic.  With `fix` the fixes of a
file that can be applied together are written back before its diagnostics
are printed.  The first failure ends the run; what was printed before it
stays.
-/

namespace LintLayer.CommandLine

open Analyzer (Library)

/-- Why a run ended early. -/
inductive Failure where
  | misuse
  | options (path : Path) (error : OptionsError)
  | missingFile (path : Path)
  | unreadable (path : Path) (fault : Fault)
  | unwritable (path : Path) (fault : Fault)
  deriving DecidableEq, Repr

/-- The wording of a failure, each cause after what it broke.  A misuse is
explained by the usage text. -/
def Failure.message : Failure → String
  | .misuse => "error: invalid usage"
  | .options path error =>
    let cause := match error with
      | .unreadable _ fault => error.message ++ ": " ++ fault.message
      | .malformed _ => error.message
    "error: failed to load options from " ++ path.text ++ ": " ++ cause
  | .missingFile path => "error: no such file: " ++ path.text
  | .unreadable path fault => "error: failed to read " ++ path.text ++ ": " ++ fault.message
  | .unwritable path fault => "error: failed to write " ++ path.text ++ ": " ++ fault.message

/-- A host that reads files from the disk and finds nothing itself. -/
def diskHost (workspace : Path) : Host Machine where
  semantic _ := pure []
  syntactic _ := pure []
  fixesAt _ _ _ := pure []
  combinedFix _ _ := pure { changes := [], commands := [] }
  sourceText file := fun machine => ((machine.readText file).toOption, machine)
  workspaceRoot := pure (some workspace)
  watch _ := pure ()
  refresh := pure ()
  isFile path := fun machine => (machine.isFile path, machine)

/-- An action of a run that can fail. -/
abbrev Action := ExceptT Failure (Layer.Action Machine Library)

/-- The setting of a run: the host and the toolchain. -/
structure Session where
  host : Host Machine
  tools : Toolchain Machine Library

/-- Reads the text of a file. -/
def readFile (path : Path) : Action String := do
  match (← getThe Machine).readText path with
  | .ok text => return text
  | .error fault => throw (.unreadable path fault)

/-- Writes the text of a file. -/
def writeFile (path : Path) (text : String) : Action Unit := do
  match (← getThe Machine).writeText path text with
  | .ok machine => set machine
  | .error fault => throw (.unwritable path fault)

/-- The edits of the fixes of a file that can be applied together. -/
def fixEdits (layer : Layer Library) (path : Path) : List Edit :=
  Batch.select (((layer.problemsOf path).filter Problem.fixable).map Problem.edits)

/-- Writes the fixes of a file.  The answer is whether there were any. -/
def fixFile (path : Path) : Action Bool := do
  let text ← readFile path
  let edits := fixEdits (← getThe (Layer Library)) path
  if edits.isEmpty then return false
  else
    writeFile path (Edit.applyAll text edits)
    return true

/-- The diagnostics of a file, after its fixes if they are asked for. -/
def diagnose (session : Session) (fix : Bool) (path : Path) : Action (List Diagnostic) := do
  let found ← Layer.semantic session.host session.tools path
  if fix then
    if ← fixFile path then Layer.semantic session.host session.tools path
    else return found
  else return found

/-- The line that is printed for a diagnostic. -/
def lineOf (file : Path) (table : LineTable) (diagnostic : Diagnostic) : String :=
  let (line, column) := table.position diagnostic.span.start
  file.text ++ ":" ++ toString line ++ ":" ++ toString column ++ ": " ++
    diagnostic.category.label ++ ": " ++ diagnostic.message

/-- The lines for a file, and whether there is an error among its
diagnostics. -/
def lintFile (session : Session) (fix : Bool) (file path : Path) :
    Action (List String × Bool) := do
  if (← getThe Machine).isFile path then
    let found ← diagnose session fix path
    let table := LineTable.ofText (← readFile path)
    return (found.map (lineOf file table),
      found.any fun diagnostic => diagnostic.category = .error)
  else throw (.missingFile path)

/-- What a run printed and how it ended. -/
structure Transcript where
  lines : List String := []
  /-- Whether a diagnostic was an error. -/
  errors : Bool := false
  failure : Option Failure := none
  deriving DecidableEq, Repr

/-- Lints files, each given as it is named and as it is found. -/
def lintFiles (session : Session) (fix : Bool) :
    List (Path × Path) → Layer.Action Machine Library Transcript
  | [] => return {}
  | (file, path) :: rest => do
    match ← (lintFile session fix file path).run with
    | .error failure => return { failure := some failure }
    | .ok (lines, errors) =>
      let later ← lintFiles session fix rest
      return { later with lines := lines ++ later.lines, errors := errors || later.errors }

/-- The workspace of a run and the path of each file. -/
def targets (directory : Path) (arguments : Arguments) : Path × List (Path × Path) :=
  let workspace := match arguments.workspace with
    | some path => Path.absoluteFrom directory path
    | none => directory
  (workspace, arguments.files.map fun file => (file, workspace.join file))

/-- The options that the arguments ask for. -/
def optionsFor (machine : Machine) (arguments : Arguments) : Except Failure Options :=
  match arguments.config with
  | none => .ok {}
  | some path => (Options.load machine path).mapError (Failure.options path)

/-- Lints what the arguments ask for. -/
def lint (arguments : Arguments) : StateM Machine Transcript := do
  let machine ← get
  let (workspace, files) := targets machine.directory.path arguments
  match optionsFor machine arguments with
  | .error failure => return { failure := some failure }
  | .ok options =>
    let session : Session :=
      { host := diskHost workspace, tools := Analyzer.toolchain (machine.which? "node") }
    let layer ← Layer.create session.host options
    return (← (lintFiles session arguments.fix files).run layer).1

/-- What the program says its version is. -/
def versionLine : String := "lintbridge 0.1.0"

/-- How the program is called. -/
def usageLines : List String :=
  ["Run eslint through the lint overlay",
    "",
    "Usage: lintbridge [OPTIONS] <FILES>...",
    "",
    "Arguments:",
    "  <FILES>...  Files to lint",
    "",
    "Options:",
    "  -w, --workspace <DIR>  Workspace root (defaults to the current directory)",
    "  -c, --config <FILE>    Plugin options file (TOML)",
    "      --fix              Apply all non-overlapping auto-fixes and write the files back",
    "  -h, --help             Print help",
    "  -V, --version          Print version"]

/-- Runs the words of a command line. -/
def run (words : List String) : StateM Machine Transcript :=
  match Invocation.ofWords words with
  | .version => return { lines := [versionLine] }
  | .help => return { lines := usageLines }
  | .misuse => return { failure := some .misuse }
  | .lint arguments => lint arguments

namespace Transcript

/-- All printed lines, each with its end. -/
def stdout (transcript : Transcript) : String :=
  String.join (transcript.lines.map fun line => line ++ "\n")

/-- The exit code: two after a failure, one after an error. -/
def exitCode (transcript : Transcript) : Nat :=
  if transcript.failure.isSome then 2 else if transcript.errors then 1 else 0

end Transcript

end LintLayer.CommandLine
