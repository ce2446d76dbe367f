import LintLayer.Analyzer.Package
import LintLayer.Text.Quoted

/-!
# Finding the analyzer

The runtime knows best where a module is, so it is asked to resolve the
module in a short run.  Whatever goes wrong there means that the module is
not found.
-/

namespace LintLayer.Analyzer

/-- The time that the runtime has for an answer, in milliseconds. -/
def resolveDeadline : Nat := 10000

/-- The program that prints where a module is. -/
def resolveScript (package : String) : String :=
  "console.log(require.resolve(" ++ Text.quoted package ++ "))"

/-- A directory in front of the inherited search path.  A directory whose
path holds a colon cannot be added. -/
def searchPath? (directory : Path) (inherited : Option String) : Option String :=
  if directory.text.contains ':' then none
  else match inherited with
    | none => some directory.text
    | some inherited => some (directory.text ++ ":" ++ inherited)

/-- The line that a process prints. -/
def captureLine (command : Command) : StateM Machine (Option String) := do
  match ← Machine.run command with
  | .ok captured => return captured.line?
  | .error _ => return none

/-- Asks the runtime where a module is, as seen from a directory. -/
def resolve (deadline : Nat) (package : String) (nodePath : Option Path) (directory : Path) :
    StateM Machine (Option Path) := do
  let machine ← get
  match machine.which? "node" with
  | none => return none
  | some node =>
    let line ← captureLine {
      program := node
      arguments := ["-e", resolveScript package]
      directory := some directory
      nodePath := nodePath.bind fun path => searchPath? path machine.nodePath
      deadline := some deadline }
    return line.map Path.mk

/-- The arguments that make a package manager print its directory. -/
def rootArguments : PackageManager → List String
  | .npm => ["root", "-g"]
  | .pnpm => ["root", "-g"]
  | .yarn => ["global", "dir"]

/-- The directory of modules inside the directory that the manager prints. -/
def rootOfLine (manager : PackageManager) (line : String) : Path :=
  match manager with
  | .yarn => Path.join ⟨line⟩ ⟨"node_modules"⟩
  | _ => ⟨line⟩

/-- Asks the package manager for the modules installed for all projects. -/
def globalRoot (deadline : Nat) (manager : PackageManager) : StateM Machine (Option Path) := do
  match (← get).which? manager.name with
  | none => return none
  | some program =>
    let line ← captureLine {
      program
      arguments := rootArguments manager
      deadline := some deadline }
    return line.map (rootOfLine manager)

/-- The toolchain of a machine.  `node` is the runtime that runs the
analyzer. -/
def toolchain (node : Option Path) : Toolchain Machine Library where
  resolve := resolve resolveDeadline
  globalRoot := globalRoot resolveDeadline
  load path := fun machine => (load node machine path, machine)
  lint := Library.lint
  pathExists path := fun machine => (machine.contains path, machine)

end LintLayer.Analyzer
