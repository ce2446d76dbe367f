/-!
# Blank characters and lines

The characters with the Unicode property White_Space, trimming by it, and
the lines of an output text.
-/

namespace LintLayer.Text

/-- The property White_Space. -/
def isBlank (c : Char) : Bool :=
  let n := c.toNat
  (0x09 ≤ n && n ≤ 0x0D) || n == 0x20 || n == 0x85 || n == 0xA0 || n == 0x1680 ||
    (0x2000 ≤ n && n ≤ 0x200A) || n == 0x2028 || n == 0x2029 || n == 0x202F || n == 0x205F ||
    n == 0x3000

/-- The text without blanks at its start. -/
def trimStart (cs : List Char) : List Char :=
  cs.dropWhile isBlank

/-- The text without blanks at its end. -/
def trimEnd (cs : List Char) : List Char :=
  (cs.reverse.dropWhile isBlank).reverse

/-- The text without blanks at its ends. -/
def trim (cs : List Char) : List Char :=
  trimEnd (trimStart cs)

/-- A line without a CR at its end. -/
def dropReturn (line : List Char) : List Char :=
  if line.getLast? = some '\r' then line.dropLast else line

/-- The lines of a text: each ends at LF or CRLF, and what follows the last
LF is a line only if it is not empty.  `current` holds the line read so
far, in reverse. -/
def linesFrom (current : List Char) : List Char → List (List Char)
  | [] => if current = [] then [] else [current.reverse]
  | '\n' :: cs => dropReturn current.reverse :: linesFrom [] cs
  | c :: cs => linesFrom (c :: current) cs

/-- The lines of a text. -/
def lines (cs : List Char) : List (List Char) :=
  linesFrom [] cs

end LintLayer.Text
