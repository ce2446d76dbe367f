import LintLayer.Machine
import LintLayer.Options.Basic
import LintLayer.Report.Basic

/-!
# Analyzers

A request asks the analyzer about one file, and an outcome is what one run
of it produced.  A toolchain is all that a run needs from outside: it finds
the analyzer, loads it and calls it.  Its functions act on a state that the
callers know nothing about.
-/

namespace LintLayer

/-- The name of the analyzer's package. -/
def analyzerPackage : String := "eslint"

/-- One call of the analyzer. -/
structure Request where
  file : Path
  /-- The text of the file; without it the analyzer reads the file. -/
  text : Option String := none
  /-- The directory that the analyzer works in. -/
  directory : Option Path := none
  configFile : Option Path := none
  allowInlineConfig : Bool := true
  reportUnusedDirectives : Bool := false
  deriving DecidableEq, Repr

/-- What one call produced. -/
structure Outcome where
  report : Report := {}
  /-- What the analyzer wrote beside its report. -/
  warnings : List String := []
  deriving DecidableEq, Repr

/-- Why an analyzer that was found could not be loaded. -/
inductive LoadError where
  | packageNotFound (library : Path)
  | entryMissing (entry : Path)
  | nodeMissing
  /-- The cause is left open where only the reader of the format has words for
  it. -/
  | manifest (path : Path) (cause : Option String)
  deriving DecidableEq, Repr

/-- The wording of the error. -/
def LoadError.message : LoadError → String
  | .packageNotFound library => s!"no analyzer package found above {library.text}"
  | .entryMissing entry => s!"analyzer entry point {entry.text} is missing"
  | .nodeMissing => "node runtime not found in PATH"
  | .manifest path (some cause) => s!"unreadable package manifest {path.text}: {cause}"
  | .manifest path none => s!"unreadable package manifest {path.text}"

/-- Why a call of the analyzer failed. -/
inductive LintError where
  | process (error : ProcessError)
  | crashed (code : Option Int) (stderr : String)
  | undecodable
  deriving DecidableEq, Repr

/-- The wording of an exit code that may be missing. -/
def exitCodeText : Option Int → String
  | some code => "Some(" ++ toString code ++ ")"
  | none => "None"

/-- The wording of the error, as far as it does not quote the reader of the
report. -/
def LintError.message : LintError → String
  | .process error => error.message
  | .crashed code stderr => "analyzer exited with status " ++ exitCodeText code ++ ": " ++ stderr
  | .undecodable => "failed to decode analyzer report"

/-- What a run needs from outside.  `σ` is the state of the outside, and
`lib` is a loaded analyzer. -/
structure Toolchain (σ lib : Type) where
  /-- Finds a module as seen from a directory, with a further directory to
  search first. -/
  resolve : String → Option Path → Path → StateM σ (Option Path)
  /-- The directory of the modules installed for all projects. -/
  globalRoot : PackageManager → StateM σ (Option Path)
  /-- Loads the analyzer that a path belongs to. -/
  load : Path → StateM σ (Except LoadError lib)
  lint : lib → Request → StateM σ (Except LintError Outcome)
  /-- Whether something stands at a path. -/
  pathExists : Path → StateM σ Bool

/-- A call that leaves a trace outside. -/
inductive Call where
  | resolve (package : String) (nodePath : Option Path) (directory : Path)
  | globalRoot (manager : PackageManager)
  | load (library : Path)
  | lint (request : Request)
  deriving DecidableEq, Repr

namespace Toolchain

variable {σ τ lib α : Type}

/-- Does an action on a part of a larger state. -/
def focus (read : τ → σ) (write : σ → τ → τ) (action : StateM σ α) : StateM τ α := fun state =>
  let (answer, part) := action (read state)
  (answer, write part state)

/-- The toolchain that acts on a part of a larger state. -/
def within (read : τ → σ) (write : σ → τ → τ) (tools : Toolchain σ lib) : Toolchain τ lib where
  resolve package nodePath directory := focus read write (tools.resolve package nodePath directory)
  globalRoot manager := focus read write (tools.globalRoot manager)
  load library := focus read write (tools.load library)
  lint library request := focus read write (tools.lint library request)
  pathExists path := focus read write (tools.pathExists path)

/-- Does an action on the outside. -/
def silently (action : StateM σ α) : StateM (List Call × σ) α :=
  focus Prod.snd (fun outside state => (state.1, outside)) action

/-- Does an action on the outside and writes down the call. -/
def note (call : Call) (action : StateM σ α) : StateM (List Call × σ) α := do
  modify fun (calls, outside) => (calls ++ [call], outside)
  silently action

/-- The toolchain that answers the same and keeps a list of all calls. -/
def logged (tools : Toolchain σ lib) : Toolchain (List Call × σ) lib where
  resolve package nodePath directory :=
    note (.resolve package nodePath directory) (tools.resolve package nodePath directory)
  globalRoot manager := note (.globalRoot manager) (tools.globalRoot manager)
  load library := note (.load library) (tools.load library)
  lint library request := note (.lint request) (tools.lint library request)
  pathExists path := silently (tools.pathExists path)

end Toolchain

end LintLayer
