/-!
# Lengths and cuts of a text

A text is a list of characters.  Editors address it by UTF-8 byte offsets,
analyzers by UTF-16 code units.  This module holds the two lengths, the
cut of a text at a byte offset, and the longest prefix that fits into a
number of code units.
-/

namespace LintLayer.Text

/-- The number of bytes of a text in UTF-8. -/
def bytes : List Char → Nat
  | [] => 0
  | c :: cs => c.utf8Size + bytes cs

/-- The number of UTF-16 code units of a character: two above U+FFFF. -/
def unitWidth (c : Char) : Nat :=
  if c.toNat < 0x10000 then 1 else 2

/-- The number of UTF-16 code units of a text. -/
def units : List Char → Nat
  | [] => 0
  | c :: cs => unitWidth c + units cs

/-- Every character is one byte and one code unit. -/
def isAscii (cs : List Char) : Bool :=
  cs.all fun c => c.toNat < 0x80

/-- The text before and after a byte offset.  There is no cut inside a
character or past the end. -/
def cut? : Nat → List Char → Option (List Char × List Char)
  | 0, cs => some ([], cs)
  | _ + 1, [] => none
  | n + 1, c :: cs =>
    if c.utf8Size ≤ n + 1 then
      (cut? (n + 1 - c.utf8Size) cs).map fun parts => (c :: parts.1, parts.2)
    else none

/-- The text between two byte offsets, when both are places to cut. -/
def slice? (start stop : Nat) (cs : List Char) : Option (List Char) := do
  let (_, rest) ← cut? start cs
  let (middle, _) ← cut? (stop - start) rest
  return middle

/-- The text between two byte offsets that are known to be places to cut. -/
def slice (start stop : Nat) (cs : List Char) : List Char :=
  (slice? start stop cs).getD []

/-- The longest prefix of at most `n` code units.  A character of two
units is never split. -/
def fitUnits : Nat → List Char → List Char
  | _, [] => []
  | n, c :: cs => if unitWidth c ≤ n then c :: fitUnits (n - unitWidth c) cs else []

/-- The longest prefix of at most `n` bytes. -/
def fitBytes : Nat → List Char → List Char
  | _, [] => []
  | n, c :: cs => if c.utf8Size ≤ n then c :: fitBytes (n - c.utf8Size) cs else []

/-- The pieces between the occurrences of a separator.  There is one piece
more than there are separators. -/
def splitOn (separator : Char) : List Char → List (List Char)
  | [] => [[]]
  | c :: cs =>
    if c = separator then [] :: splitOn separator cs
    else match splitOn separator cs with
      | [] => [[c]]
      | piece :: pieces => (c :: piece) :: pieces

/-- The pieces with a separator between each two. -/
def joinWith (separator : Char) : List (List Char) → List Char
  | [] => []
  | [piece] => piece
  | piece :: pieces => piece ++ separator :: joinWith separator pieces

end LintLayer.Text
