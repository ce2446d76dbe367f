import LintLayer.Json.Basic

/-!
# Writing JSON text

A value is written on one line without blanks.  Control characters and
the characters that some readers take for the end of a line are written as
escapes, every other character as itself.
-/

namespace LintLayer.Json

/-- A digit of base sixteen. -/
def hexChar (n : Nat) : Char :=
  if n < 10 then Char.ofNat ('0'.toNat + n) else Char.ofNat ('a'.toNat + (n - 10))

/-- The escape of a character by its number. -/
def writeUnit (n : Nat) : List Char :=
  ['\\', 'u', hexChar (n / 4096 % 16), hexChar (n / 256 % 16), hexChar (n / 16 % 16),
    hexChar (n % 16)]

/-- Whether a character ends a line for some readers. -/
def isLineEnd (c : Char) : Bool :=
  c.toNat = 0x85 || c.toNat = 0x2028 || c.toNat = 0x2029

/-- One character inside quotes. -/
def writeChar (c : Char) : List Char :=
  if c = '"' then ['\\', '"']
  else if c = '\\' then ['\\', '\\']
  else if c = '\n' then ['\\', 'n']
  else if c = '\r' then ['\\', 'r']
  else if c = '\t' then ['\\', 't']
  else if c.toNat < 0x20 || isLineEnd c then writeUnit c.toNat
  else [c]

/-- A text in quotes. -/
def writeString (text : String) : String :=
  "\"" ++ String.ofList (text.toList.flatMap writeChar) ++ "\""

mutual

/-- The text of a value.  What cannot be read is written as null. -/
def write : Json → String
  | .null => "null"
  | .bool true => "true"
  | .bool false => "false"
  | .int value => toString value
  | .float value => value.render
  | .str value => writeString value
  | .arr items => "[" ++ writeItems items ++ "]"
  | .obj members => "\x7b" ++ writeMembers members ++ "\x7d"
  | .unreadable => "null"

/-- The items with commas between them. -/
def writeItems : List Json → String
  | [] => ""
  | [item] => write item
  | item :: items => write item ++ "," ++ writeItems items

/-- The members with commas between them. -/
def writeMembers : List (String × Json) → String
  | [] => ""
  | [(key, value)] => writeString key ++ ":" ++ write value
  | (key, value) :: members =>
    writeString key ++ ":" ++ write value ++ "," ++ writeMembers members

end

end LintLayer.Json
