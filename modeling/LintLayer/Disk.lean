import LintLayer.Path.Basic
import LintLayer.Text.Utf8

/-!
# Disks

A disk is a tree of directories and files.  A place in the tree is the list
of names from the root down.  A path is followed step by step from a
directory, and following it can fail: a name may be missing, a file has
nothing below it, and names and whole paths have a greatest length.

There are no links, so each entry has one place and the paths that lead to it
differ only in blank steps, `.` and `..`.  Nothing is read-only and there is
room for every text, so a file that is there can be replaced; only a directory
or a program cannot.
-/

namespace LintLayer

/-- The names from the root down. -/
abbrev Place := List String

/-- What a file holds. -/
inductive Content where
  | text (text : String)
  | bytes (bytes : List UInt8)
  deriving DecidableEq, Repr

/-- The text of a file, if its bytes are text. -/
def Content.text? : Content → Option String
  | .text held => some held
  | .bytes raw => Text.Utf8.decode? raw

/-- What stands at a place. -/
inductive Entry where
  | directory
  | file (content : Content)
  /-- A file that can be run. -/
  | program (name : String)
  deriving DecidableEq, Repr

/-- Why a path could not be used. -/
inductive Fault where
  | missing
  | notDirectory
  | isDirectory
  | notText
  | denied
  | nameTooLong
  | argumentsTooLong
  /-- A path with the character NUL. -/
  | nulInPath
  /-- A command with the character NUL. -/
  | nulInCommand
  deriving DecidableEq, Repr

/-- The wording of a fault. -/
def Fault.message : Fault → String
  | .missing => "No such file or directory (os error 2)"
  | .notDirectory => "Not a directory (os error 20)"
  | .isDirectory => "Is a directory (os error 21)"
  | .notText => "stream did not contain valid UTF-8"
  | .denied => "Permission denied (os error 13)"
  | .nameTooLong => "File name too long (os error 36)"
  | .argumentsTooLong => "Argument list too long (os error 7)"
  | .nulInPath => "file name contained an unexpected NUL byte"
  | .nulInCommand => "nul byte found in provided data"

/-- A tree of directories and files below the root. -/
structure Disk where
  entries : List (Place × Entry) := []
  deriving Repr

namespace Disk

/-- The entry at a place.  The root is always a directory. -/
def entryAt? (disk : Disk) (place : Place) : Option Entry :=
  if place = [] then some .directory else disk.entries.lookup place

/-- Puts an entry at a place. -/
def put (disk : Disk) (place : Place) (entry : Entry) : Disk :=
  ⟨(place, entry) :: disk.entries.filter fun old => old.1 ≠ place⟩

/-- Makes a place a directory, unless something stands there. -/
def makeDirectory (disk : Disk) (place : Place) : Disk :=
  match disk.entryAt? place with
  | some _ => disk
  | none => disk.put place .directory

/-- Puts an entry at a place and makes the directories above it. -/
def insert (disk : Disk) (place : Place) (entry : Entry) : Disk :=
  let above := (List.range place.length).map place.take
  let disk := above.foldl makeDirectory disk
  match entry with
  | .directory => disk.makeDirectory place
  | entry => disk.put place entry

/-- Removes a place and all below it. -/
def remove (disk : Disk) (place : Place) : Disk :=
  ⟨disk.entries.filter fun old => !place.isPrefixOf old.1⟩

/-- The greatest number of bytes of a name. -/
def nameLimit : Nat := 255

/-- The greatest number of bytes of a path. -/
def pathLimit : Nat := 4095

/-- The place one step away. -/
def step (disk : Disk) (place : Place) (segment : String) : Except Fault Place :=
  match disk.entryAt? place with
  | some .directory =>
    if segment = "" ∨ segment = "." then .ok place
    else if segment = ".." then .ok place.dropLast
    else if nameLimit < segment.utf8ByteSize then .error .nameTooLong
    else
      let next := place ++ [segment]
      if (disk.entryAt? next).isSome then .ok next else .error .missing
  | some _ => .error .notDirectory
  | none => .error .missing

/-- The place of a path as seen from a directory. -/
def locate (disk : Disk) (start : Place) (path : Path) : Except Fault Place :=
  if path.text.contains '\x00' then .error .nulInPath
  else if pathLimit < path.text.utf8ByteSize then .error .nameTooLong
  else if path.text = "" then .error .missing
  else
    let segments := (Text.splitOn '/' path.text.toList).map String.ofList
    segments.foldlM disk.step (if path.isAbsolute then [] else start)

/-- The entry of a path as seen from a directory. -/
def find (disk : Disk) (start : Place) (path : Path) : Except Fault Entry := do
  let place ← disk.locate start path
  match disk.entryAt? place with
  | some entry => .ok entry
  | none => .error .missing

/-- Whether something stands at a path. -/
def contains (disk : Disk) (start : Place) (path : Path) : Bool :=
  (disk.find start path).toOption.isSome

/-- Whether a file stands at a path. -/
def isFile (disk : Disk) (start : Place) (path : Path) : Bool :=
  match disk.find start path with
  | .ok .directory => false
  | .ok _ => true
  | .error _ => false

/-- The text of the file at a path. -/
def readText (disk : Disk) (start : Place) (path : Path) : Except Fault String := do
  match ← disk.find start path with
  | .directory => .error .isDirectory
  | .program _ => .error .notText
  | .file content =>
    match content.text? with
    | some text => .ok text
    | none => .error .notText

/-- Replaces the text of a file that is there. -/
def writeText (disk : Disk) (start : Place) (path : Path) (text : String) :
    Except Fault Disk := do
  let place ← disk.locate start path
  match disk.entryAt? place with
  | some .directory => .error .isDirectory
  | some (.program _) => .error .denied
  | some (.file _) => .ok (disk.put place (.file (.text text)))
  | none => .error .missing

end Disk

/-- The path of a place. -/
def Place.path (place : Place) : Path :=
  Path.ofComponents (.root :: place.map .name)

end LintLayer
