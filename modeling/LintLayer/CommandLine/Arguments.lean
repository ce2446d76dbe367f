import LintLayer.Path.Basic

/-!
# Arguments

The words of the command line: options with a value, flags, and the files
to lint.  A value stands in the word itself or is the next word, and `--`
ends the options.
-/

namespace LintLayer.CommandLine

/-- What a run is asked to do. -/
structure Arguments where
  workspace : Option Path := none
  config : Option Path := none
  fix : Bool := false
  files : List Path := []
  deriving DecidableEq, Repr

/-- What the words ask for. -/
inductive Invocation where
  | lint (arguments : Arguments)
  | version
  | help
  | misuse
  deriving DecidableEq, Repr

/-- An option with a value. -/
inductive Setting where
  | workspace
  | config
  deriving DecidableEq, Repr

/-- The meaning of one word. -/
inductive Word where
  | setting (setting : Setting) (value : Option String)
  | fix
  | version
  | help
  | endOfOptions
  | file (text : String)
  | unknown
  deriving DecidableEq, Repr

/-- The meaning of a word after two dashes. -/
def longWord (cs : List Char) : Word :=
  let name := String.ofList (cs.takeWhile (· ≠ '='))
  let value := match cs.dropWhile (· ≠ '=') with
    | [] => none
    | _ :: value => some (String.ofList value)
  if name = "workspace" then .setting .workspace value
  else if name = "config" then .setting .config value
  else if value.isSome then .unknown
  else if name = "fix" then .fix
  else if name = "version" then .version
  else if name = "help" then .help
  else .unknown

/-- The value that stands in the word of a short option, without an equals
sign in front. -/
def attached : List Char → Option String
  | [] => none
  | '=' :: value => some (String.ofList value)
  | value => some (String.ofList value)

/-- The meaning of a word. -/
def Word.ofText (text : String) : Word :=
  match text.toList with
  | ['-', '-'] => .endOfOptions
  | '-' :: '-' :: rest => longWord rest
  | '-' :: 'w' :: rest => .setting .workspace (attached rest)
  | '-' :: 'c' :: rest => .setting .config (attached rest)
  | '-' :: 'V' :: _ => .version
  | '-' :: 'h' :: _ => .help
  | '-' :: _ :: _ => .unknown
  | _ => .file text

/-- Whether a word can stand as the value of the option before it. -/
def isValue (text : String) : Bool :=
  match text.toList with
  | ['-'] => true
  | '-' :: _ => false
  | _ => true

namespace Arguments

/-- Sets an option that is not set yet.  Its value is not empty. -/
def set? (arguments : Arguments) (setting : Setting) (value : String) : Option Arguments :=
  if value = "" then none
  else match setting with
    | .workspace =>
      if arguments.workspace.isSome then none
      else some { arguments with workspace := some ⟨value⟩ }
    | .config =>
      if arguments.config.isSome then none else some { arguments with config := some ⟨value⟩ }

/-- Adds a file. -/
def addFile? (arguments : Arguments) (text : String) : Option Arguments :=
  if text = "" then none else some { arguments with files := arguments.files ++ [⟨text⟩] }

/-- The run of all arguments; it needs a file. -/
def finish (arguments : Arguments) : Invocation :=
  if arguments.files.isEmpty then .misuse else .lint arguments

/-- The run of the arguments and of further files. -/
def finishFiles (arguments : Arguments) (words : List String) : Invocation :=
  match words.foldlM addFile? arguments with
  | some arguments => arguments.finish
  | none => .misuse

end Arguments

/-- What words ask for after the arguments so far. -/
def Invocation.scan (arguments : Arguments) : List String → Invocation
  | [] => arguments.finish
  | text :: rest =>
    match Word.ofText text with
    | .endOfOptions => arguments.finishFiles rest
    | .version => .version
    | .help => .help
    | .unknown => .misuse
    | .fix => if arguments.fix then .misuse else scan { arguments with fix := true } rest
    | .file text =>
      match arguments.addFile? text with
      | some arguments => scan arguments rest
      | none => .misuse
    | .setting setting (some value) =>
      match arguments.set? setting value with
      | some arguments => scan arguments rest
      | none => .misuse
    | .setting setting none =>
      match rest with
      | [] => .misuse
      | value :: rest =>
        if isValue value then
          match arguments.set? setting value with
          | some arguments => scan arguments rest
          | none => .misuse
        else .misuse

/-- What the words ask for. -/
def Invocation.ofWords (words : List String) : Invocation :=
  scan {} words

end LintLayer.CommandLine
