import LintLayer.Analyzer.Output

/-!
# The analyzer as a package

A package is a directory with a manifest.  The analyzer that a module path
belongs to is the nearest directory above the path whose manifest names it.
A loaded analyzer is called as a program of its own.
-/

namespace LintLayer.Analyzer

/-- A loaded analyzer: the runtime, the program that it runs, and the
version of the package. -/
structure Library where
  node : Path
  entry : Path
  version : Option String := none
  deriving DecidableEq, Repr

/-- What a manifest says. -/
structure Manifest where
  name : Option String
  version : Option String
  deriving DecidableEq, Repr

/-- Reads a manifest. -/
def Manifest.ofText? (text : String) : Option Manifest := do
  let [name, version] ← Json.record? ["name", "version"] (← Json.parse? text) | none
  return {
    name := ← name.orAbsent (Json.asOption? Json.asString?) none
    version := ← version.orAbsent (Json.asOption? Json.asString?) none }

/-- The program of the analyzer inside its package. -/
def entryPoint : Path := ⟨"bin/eslint.js"⟩

/-- The first directory whose manifest names the analyzer.  A manifest that
cannot be read ends the search. -/
def findPackage (machine : Machine) (library : Path) :
    List Path → Except LoadError (Path × Manifest)
  | [] => .error (.packageNotFound library)
  | directory :: rest =>
    let path := directory.join ⟨"package.json"⟩
    if machine.isFile path then
      match machine.readText path with
      | .error fault => .error (.manifest path (some fault.message))
      | .ok text =>
        match Manifest.ofText? text with
        | none => .error (.manifest path none)
        | some manifest =>
          if manifest.name = some analyzerPackage then .ok (directory, manifest)
          else findPackage machine library rest
    else findPackage machine library rest

/-- Loads the analyzer that a module path belongs to. -/
def load (node : Option Path) (machine : Machine) (library : Path) : Except LoadError Library :=
  match node with
  | none => .error .nodeMissing
  | some node => do
    let (root, manifest) ← findPackage machine library library.properAncestors
    let entry := root.join entryPoint
    if machine.isFile entry then .ok ⟨node, entry, manifest.version⟩
    else .error (.entryMissing entry)

namespace Library

/-- The arguments of a call. -/
def arguments (library : Library) (request : Request) : List String :=
  [library.entry.text, "--format", "json"] ++
    (match request.configFile with
      | some config => ["--config", config.text]
      | none => []) ++
    (if request.allowInlineConfig then [] else ["--no-inline-config"]) ++
    (if request.reportUnusedDirectives then ["--report-unused-disable-directives"] else []) ++
    (if request.text.isSome then ["--stdin", "--stdin-filename"] else []) ++
    [request.file.text]

/-- The process of a call. -/
def command (library : Library) (request : Request) : Command :=
  { program := library.node
    arguments := library.arguments request
    directory := request.directory
    stdin := request.text }

/-- Calls the analyzer. -/
def lint (library : Library) (request : Request) : StateM Machine (Except LintError Outcome) := do
  match ← Machine.run (library.command request) with
  | .error error => return .error (.process error)
  | .ok captured => return outcome captured

end Library

end LintLayer.Analyzer
