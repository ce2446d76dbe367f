import LintLayer.Disk
import LintLayer.Text.Blank

/-!
# Machines

A machine is what a run sees of the computer: a disk, the working
directory, the directory where programs are found, and the programs
themselves.  Programs are taken as they answer: the next process to start
behaves as the next answer says, and every start is recorded.
-/

namespace LintLayer

/-- How a process behaves. -/
structure Answer where
  stdout : List UInt8 := []
  stderr : List UInt8 := []
  /-- The exit code; a process that a signal ends has none. -/
  code : Option Int := some 0
  /-- Whether the process reads its input. -/
  reads : Bool := true
  /-- Whether the process is still running when a deadline ends.  It does end at
  some time, later than any deadline. -/
  hangs : Bool := false
  deriving Repr

/-- A process to start. -/
structure Command where
  program : Path
  arguments : List String
  directory : Option Path := none
  /-- The module search path, when it is not the inherited one. -/
  nodePath : Option String := none
  stdin : Option String := none
  /-- The time to wait, in milliseconds. -/
  deadline : Option Nat := none
  deriving Repr

/-- Whether a part of the command holds the character NUL, which no process
can be given. -/
def Command.holdsNul (command : Command) : Bool :=
  let parts := command.program.text :: (command.directory.map Path.text).toList ++
    command.nodePath.toList ++ command.arguments
  parts.any fun part => part.contains '\x00'

/-- The program as messages show it.  A path with the character NUL is not
shown. -/
def Command.shownProgram (command : Command) : Path :=
  if command.program.text.contains '\x00' then ⟨"<string-with-nul>"⟩ else command.program

/-- The greatest number of bytes of an argument. -/
def argumentLimit : Nat := 131071

/-- A process that was started. -/
structure Spawn where
  program : String
  arguments : List String
  directory : Path
  nodePath : Option String
  /-- The input that was read, if the process reads any. -/
  stdin : Option String
  deriving DecidableEq, Repr

/-- What a finished process left. -/
structure Captured where
  code : Option Int
  stdout : String
  stderr : String
  deriving DecidableEq, Repr

/-- Why a process did not finish. -/
inductive ProcessError where
  | spawn (program : Path) (fault : Fault)
  | timedOut (program : Path) (milliseconds : Nat)
  deriving DecidableEq, Repr

/-- The wording of the error. -/
def ProcessError.message : ProcessError → String
  | .spawn program fault => s!"failed to spawn {program.text}: {fault.message}"
  | .timedOut program milliseconds =>
    s!"{program.text} timed out after {milliseconds} ms"

/-- The trimmed output of a process that ended well, if it is not blank. -/
def Captured.line? (captured : Captured) : Option String :=
  let line := Text.trim captured.stdout.toList
  if captured.code = some 0 ∧ line ≠ [] then some (String.ofList line) else none

/-- The computer as a run sees it. -/
structure Machine where
  disk : Disk := {}
  directory : Place := []
  /-- The directory where programs are looked for. -/
  programs : Option Path := none
  /-- The module search path that processes inherit. -/
  nodePath : Option String := none
  /-- The behaviour of the processes to come. -/
  answers : List Answer := []
  /-- The processes that were started, in order. -/
  spawns : List Spawn := []
  deriving Repr

namespace Machine

/-- Whether something stands at a path. -/
def contains (machine : Machine) (path : Path) : Bool :=
  machine.disk.contains machine.directory path

/-- Whether a file stands at a path. -/
def isFile (machine : Machine) (path : Path) : Bool :=
  machine.disk.isFile machine.directory path

/-- The text of a file. -/
def readText (machine : Machine) (path : Path) : Except Fault String :=
  machine.disk.readText machine.directory path

/-- Replaces the text of a file. -/
def writeText (machine : Machine) (path : Path) (text : String) : Except Fault Machine := do
  let disk ← machine.disk.writeText machine.directory path text
  return { machine with disk }

/-- The path of a program that is found by its name. -/
def which? (machine : Machine) (name : String) : Option Path := do
  let path := (← machine.programs).join ⟨name⟩
  match machine.disk.find machine.directory path with
  | .ok (.program _) => some path
  | _ => none

/-- The place where a process works. -/
def workplace (machine : Machine) (directory : Option Path) : Except Fault Place :=
  match directory with
  | none => .ok machine.directory
  | some directory => do
    let place ← machine.disk.locate machine.directory directory
    match machine.disk.entryAt? place with
    | some .directory => .ok place
    | some _ => .error .notDirectory
    | none => .error .missing

/-- The name of the program at a path, as seen from the place where it is to
work.  A path without a slash is looked up by its name. -/
def programAt (machine : Machine) (place : Place) (program : Path) : Except Fault String :=
  let path := if program.text = "" then none
    else if program.text.contains '/' then some program
    else machine.programs.map fun directory => directory.join program
  match path with
  | none => .error .missing
  | some path => do
    match ← machine.disk.find place path with
    | .program name => .ok name
    | _ => .error .denied

/-- What is recorded of a start. -/
def spawnOf (machine : Machine) (command : Command) (name : String) (place : Place)
    (answer : Answer) : Spawn :=
  { program := name
    arguments := command.arguments
    directory := place.path
    nodePath := command.nodePath.or machine.nodePath
    stdin := if answer.reads then some (command.stdin.getD "") else none }

/-- Whether an argument or the module search path is too long for a
process. -/
def isTooLong (machine : Machine) (command : Command) : Bool :=
  let environment := (command.nodePath.or machine.nodePath).toList.map fun path =>
    "NODE_PATH=" ++ path
  (command.arguments ++ environment).any fun part => argumentLimit < part.utf8ByteSize

/-- Starts a process and waits for it.  A process that does not start is
not recorded.  One that hangs is given up at the deadline; without a deadline
its answer is late, and it is waited for like any other. -/
def run (command : Command) : StateM Machine (Except ProcessError Captured) := do
  let machine ← get
  let found : Except Fault (Place × String) := do
    if command.holdsNul then throw .nulInCommand
    let place ← machine.workplace command.directory
    let name ← machine.programAt place command.program
    if machine.isTooLong command then throw .argumentsTooLong
    return (place, name)
  match found with
  | .error fault => return .error (.spawn command.shownProgram fault)
  | .ok (place, name) =>
    let answer := machine.answers.headD {}
    set { machine with
      answers := machine.answers.tail
      spawns := machine.spawns ++ [machine.spawnOf command name place answer] }
    match answer.hangs, command.deadline with
    | true, some milliseconds => return .error (.timedOut command.program milliseconds)
    | _, _ =>
      return .ok {
        code := answer.code
        stdout := Text.Utf8.decodeLossy answer.stdout
        stderr := Text.Utf8.decodeLossy answer.stderr }

end Machine

end LintLayer
