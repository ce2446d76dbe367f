import LintLayer.CommandLine.Run

/-!
# The program

The program takes a picture of the files that a run looks at, lints in the
picture, writes back the files that the run changed, and prints what it
printed.  It starts no other programs, so a run behaves as on a computer
where none is installed: what it reports is what can be said without the
analyzer.
-/

namespace LintLayer.CommandLine

/-- The place of a path, with `..` folded away. -/
def placeOf (path : Path) : Place :=
  (path.normalize.components.filterMap fun
    | .name text => some text
    | _ => none)

/-- The files that a run looks at, in the workspace and beside it. -/
def sources (directory : Path) (options : Options) (arguments : Arguments) : List Path :=
  let (workspace, files) := targets directory arguments
  files.map Prod.snd ++ options.configCandidates workspace ++ options.nodePath.toList

/-- Adds a file or a directory of the computer to the picture. -/
def addSource (machine : Machine) (path : Path) : IO Machine := do
  let path := machine.directory.path.join path
  let found := (← IO.currentDir) / path.text
  let add (entry : Entry) : Machine :=
    { machine with disk := machine.disk.insert (placeOf path) entry }
  if ← found.isDir then return add .directory
  else if ← found.pathExists then
    return add (.file (.bytes (← IO.FS.readBinFile found).toList))
  else return machine

/-- The picture for a run, and the options that it uses. -/
def picture (directory : Path) (arguments : Arguments) : IO Machine := do
  let place := placeOf directory
  let bare : Machine := { disk := Disk.insert {} place .directory, directory := place }
  let machine ← arguments.config.toList.foldlM addSource bare
  match optionsFor machine arguments with
  | .error _ => return machine
  | .ok options => (sources directory options arguments).foldlM addSource machine

/-- Writes a target back if its text changed. -/
def writeBack (before after : Machine) (path : Path) : IO Unit := do
  match before.readText path, after.readText path with
  | .ok old, .ok new => if old ≠ new then IO.FS.writeFile path.text new
  | _, _ => return ()

/-- Prints what a run printed, its failure, and gives its exit code. -/
def report (transcript : Transcript) : IO UInt32 := do
  IO.print transcript.stdout
  match transcript.failure with
  | none => return transcript.exitCode.toUInt32
  | some failure =>
    IO.eprintln failure.message
    return transcript.exitCode.toUInt32

/-- Runs the words of the command line on the computer. -/
def program (words : List String) : IO UInt32 := do
  match Invocation.ofWords words with
  | .lint arguments =>
    let directory : Path := ⟨(← IO.currentDir).toString⟩
    let before ← picture directory arguments
    let (transcript, after) := (run words).run before
    for target in (targets directory arguments).2 do
      writeBack before after target.2
    report transcript
  | _ => report ((run words).run {}).1

end LintLayer.CommandLine

/-- The program. -/
def main (words : List String) : IO UInt32 :=
  LintLayer.CommandLine.program words
