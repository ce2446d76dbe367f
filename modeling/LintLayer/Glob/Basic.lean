/-!
# Glob patterns

A pattern is a list of tokens and matches a path as a whole, byte by byte.
`?` and `*` stop at `/`; a class does not.  The recursive tokens stand for
any number of directories at the start, in the middle and at the end.

Matching marks the places of the path that can be reached, the one before
the first byte, between two bytes or behind the last.  Every token moves the
marks in one pass over the path, so the work grows with the product of the
lengths and not with the number of ways to match.
-/

namespace LintLayer.Glob

/-- One part of a pattern. -/
inductive Token where
  /-- This character. -/
  | literal (c : Char)
  /-- `?`: one byte that is no slash. -/
  | anyByte
  /-- `*`: any bytes that are no slashes. -/
  | star
  /-- `**` at the start: nothing, a slash, or anything up to a slash. -/
  | anyStart
  /-- `**` at the end: a slash and anything. -/
  | anyEnd
  /-- `**` between slashes: a slash, or anything between two slashes. -/
  | anyMiddle
  /-- One byte inside the ranges, or outside of them. -/
  | oneOf (negated : Bool) (ranges : List (Char × Char))
  /-- One of several patterns. -/
  | alternatives (branches : List (List Token))
  deriving Repr, Inhabited

/-- The slash. -/
def slash : UInt8 := 0x2F

/-- The bytes of a character. -/
def charBytes (c : Char) : List UInt8 :=
  (String.singleton c).toUTF8.toList

/-- The byte ranges of a class.  The bytes of a character stand one after
the other in the class, so a range of characters is a range from the last
byte of the first one to the first byte of the last one, and single bytes
around it. -/
def byteRanges (range : Char × Char) : List (UInt8 × UInt8) :=
  let first := charBytes range.1
  let last := charBytes range.2
  if range.1 = range.2 then first.map fun b => (b, b)
  else
    first.dropLast.map (fun b => (b, b)) ++
      (match first.getLast?, last.head? with
        | some low, some high => [(low, high)]
        | _, _ => []) ++
      last.tail.map fun b => (b, b)

/-- Whether one of the ranges holds a byte. -/
def inRanges (ranges : List (UInt8 × UInt8)) (b : UInt8) : Bool :=
  ranges.any fun range => range.1 ≤ b && b ≤ range.2

/-- Which places of a path are reached: the place before the first byte, and
the place behind each byte. -/
abbrev Marks := List Bool

namespace Marks

/-- Only the place before the first byte. -/
def start (bytes : List UInt8) : Marks :=
  true :: bytes.map fun _ => false

/-- The places one byte further, when the byte passes the test. -/
def step (test : UInt8 → Bool) (bytes : List UInt8) (marks : Marks) : Marks :=
  false :: List.zipWith (fun b reached => reached && test b) bytes marks

/-- The rest of the places for `spread`: `reached` tells whether the place
before the first byte left is reached, and `done` holds the places before
it, the last one first. -/
def spreadFrom (test : UInt8 → Bool) (done : Marks) (reached : Bool) :
    List UInt8 → Marks → Marks
  | b :: bytes, mark :: marks =>
    spreadFrom test (reached :: done) (mark || (reached && test b)) bytes marks
  | _, _ => (reached :: done).reverse

/-- The places any number of bytes further, when all of them pass the
test. -/
def spread (test : UInt8 → Bool) (bytes : List UInt8) : Marks → Marks
  | [] => []
  | mark :: marks => spreadFrom test [] mark bytes marks

/-- The places that are reached in one of two ways. -/
def union (left right : Marks) : Marks :=
  List.zipWith or left right

/-- The places one slash further. -/
def slashOn (bytes : List UInt8) (marks : Marks) : Marks :=
  marks.step (· == slash) bytes

/-- The places anything further. -/
def anythingOn (bytes : List UInt8) (marks : Marks) : Marks :=
  marks.spread (fun _ => true) bytes

/-- Whether the place behind the last byte is reached. -/
def atEnd (marks : Marks) : Bool :=
  marks.getLastD false

end Marks

mutual

/-- Whether a token stands for nothing at all. -/
def isVoid : Token → Bool
  | .alternatives branches => allVoid branches
  | _ => false

/-- Whether every branch stands for nothing at all. -/
def allVoid : List (List Token) → Bool
  | [] => true
  | branch :: branches => sequenceVoid branch && allVoid branches

/-- Whether every token of a branch stands for nothing at all. -/
def sequenceVoid : List Token → Bool
  | [] => true
  | token :: tokens => isVoid token && sequenceVoid tokens

end

mutual

/-- The places that one token leads to. -/
def after (bytes : List UInt8) : Token → Marks → Marks
  | .literal c, marks => (charBytes c).foldl (fun marks b => marks.step (· == b) bytes) marks
  | .anyByte, marks => marks.step (· != slash) bytes
  | .star, marks => marks.spread (· != slash) bytes
  | .anyStart, marks => marks.union ((marks.anythingOn bytes).slashOn bytes)
  | .anyEnd, marks => (marks.slashOn bytes).anythingOn bytes
  | .anyMiddle, marks =>
    let inside := marks.slashOn bytes
    inside.union ((inside.anythingOn bytes).slashOn bytes)
  | .oneOf negated ranges, marks =>
    let held := ranges.flatMap byteRanges
    marks.step (fun b => inRanges held b != negated) bytes
  | .alternatives branches, marks =>
    if allVoid branches then marks
    else afterSome bytes branches marks (marks.map fun _ => false)

/-- The places that one of the branches leads to, together with those found
before.  A branch that stands for nothing is left out. -/
def afterSome (bytes : List UInt8) : List (List Token) → Marks → Marks → Marks
  | [], _, found => found
  | branch :: branches, marks, found =>
    if sequenceVoid branch then afterSome bytes branches marks found
    else afterSome bytes branches marks (found.union (afterAll bytes branch marks))

/-- The places that a sequence of tokens leads to. -/
def afterAll (bytes : List UInt8) : List Token → Marks → Marks
  | [], marks => marks
  | token :: tokens, marks => afterAll bytes tokens (after bytes token marks)

end

/-- Whether a sequence of tokens stands for exactly these bytes. -/
def fits (tokens : List Token) (bytes : List UInt8) : Bool :=
  (afterAll bytes tokens (Marks.start bytes)).atEnd

/-- Whether a token is a character. -/
def Token.isLiteral : Token → Bool
  | .literal _ => true
  | _ => false

/-- Whether a token is the slash. -/
def Token.isSlash : Token → Bool
  | .literal c => c == '/'
  | _ => false

/-- Whether a path ends in the name of a file.  Two points are none. -/
def endsInName (text : String) : Bool :=
  text.toList.reverse.takeWhile (· ≠ '/') != ['.', '.']

/-- Whether a pattern that ends in a point looks for the name of a file.
Plain paths do not, nor do plain paths with directories below any
directory. -/
def needsName (tokens : List Token) : Bool :=
  match tokens.getLast? with
  | some (.literal '.') =>
    match tokens with
    | .anyStart :: rest => !(rest.all Token.isLiteral && rest.any Token.isSlash)
    | _ => !tokens.all Token.isLiteral
  | _ => false

/-- Whether a pattern matches a whole text.  A pattern that is only `**`
matches everything. -/
def isMatch (tokens : List Token) (text : String) : Bool :=
  match tokens with
  | [.anyStart] => true
  | _ => (!needsName tokens || endsInName text) &&
      fits tokens text.toUTF8.toList

end LintLayer.Glob
