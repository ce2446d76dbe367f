import LintLayer.Glob.Basic

/-!
# Reading glob patterns

The pattern is read from left to right.  `work` holds the open branches:
the branch that is being read, and for every open brace the branches
before it.  A pattern with an open class or brace, a closing brace too
many, a range that runs backwards, or a lone `\` at its end is refused.
-/

namespace LintLayer.Glob

/-- The state of reading: the tokens of the current branch, last one first,
and for each open brace the finished branches and the tokens outside. -/
structure Work where
  current : List Token
  outer : List (List (List Token) × List Token)
  previous : Option Char

namespace Work

/-- Nothing read yet. -/
def empty : Work :=
  ⟨[], [], none⟩

/-- Adds a token to the current branch. -/
def push (work : Work) (token : Token) : Work :=
  { work with current := token :: work.current }

/-- Adds two plain stars. -/
def pushTwoStars (work : Work) : Work :=
  (work.push .star).push .star

/-- Whether a brace is open. -/
def inBraces (work : Work) : Bool :=
  !work.outer.isEmpty

/-- Opens a brace. -/
def openBrace (work : Work) : Work :=
  { work with current := [], outer := ([], work.current) :: work.outer }

/-- Starts the next branch; outside of braces a comma is a character. -/
def comma (work : Work) : Work :=
  match work.outer with
  | [] => work.push (.literal ',')
  | (done, outside) :: outer =>
    { work with current := [], outer := (work.current.reverse :: done, outside) :: outer }

/-- Closes a brace, if one is open. -/
def closeBrace? (work : Work) : Option Work :=
  match work.outer with
  | [] => none
  | (done, outside) :: outer =>
    some { work with
      current := .alternatives (work.current.reverse :: done).reverse :: outside
      outer }

/-- Puts a recursive token in the place of the token before it.  After
another recursive token at the start or the end nothing changes. -/
def recursive (work : Work) (token : Token) : Work :=
  match work.current with
  | .anyStart :: _ => work
  | .anyEnd :: _ => work
  | _ :: rest => { work with current := token :: rest }
  | [] => work

end Work

/-- The parts of a class that are read so far: the ranges, last one first,
whether nothing was read, and whether a range is open. -/
structure ClassWork where
  ranges : List (Char × Char)
  first : Bool
  inRange : Bool

/-- Adds a character to a class.  It ends an open range. -/
def ClassWork.add? (work : ClassWork) (c : Char) : Option ClassWork :=
  if work.inRange then
    match work.ranges with
    | (low, _) :: ranges =>
      if c < low then none else some ⟨(low, c) :: ranges, false, false⟩
    | [] => none
  else some ⟨(c, c) :: work.ranges, false, false⟩

/-- The ranges of a class up to its closing bracket, and the rest. -/
def classRanges? (work : ClassWork) : List Char → Option (List (Char × Char) × List Char)
  | [] => none
  | c :: rest =>
    if c = ']' && !work.first then
      let ranges := if work.inRange then ('-', '-') :: work.ranges else work.ranges
      some (ranges.reverse, rest)
    else if c = '-' && !work.first && !work.inRange then
      classRanges? { work with inRange := true } rest
    else do
      let work ← work.add? c
      classRanges? work rest

/-- A class after its opening bracket. -/
def class? (cs : List Char) : Option (Token × List Char) := do
  let (negated, cs) := match cs with
    | '!' :: rest => (true, rest)
    | '^' :: rest => (true, rest)
    | cs => (false, cs)
  let (ranges, rest) ← classRanges? ⟨[], true, false⟩ cs
  return (.oneOf negated ranges, rest)

/-- Whether the last character read sets off two stars after it: a slash,
or, between braces, a comma or an opening brace. -/
def Work.atBoundary (work : Work) : Bool :=
  work.previous == some '/' ||
    (work.inBraces && (work.previous == some ',' || work.previous == some '\x7b'))

/-- What two stars stand for, with the characters after them: the new state
and whether the slash after them is taken. -/
def doubleStar (work : Work) (next : Option Char) : Work × Bool :=
  if work.current.isEmpty then
    match next with
    | none => (work.push .anyStart, false)
    | some '/' => (work.push .anyStart, true)
    | some _ => (work.pushTwoStars, false)
  else if !work.atBoundary then (work.pushTwoStars, false)
  else match next with
    | none => (work.recursive .anyEnd, false)
    | some '/' => (work.recursive .anyMiddle, true)
    | some c =>
      if (c = ',' || c = '}') && work.inBraces then (work.recursive .anyEnd, false)
      else (work.pushTwoStars, false)

/-- Reads the rest of a pattern.  `fuel` bounds the number of steps. -/
def tokens? : Nat → Work → List Char → Option (List Token)
  | 0, _, _ => none
  | _ + 1, work, [] => if work.inBraces then none else some work.current.reverse
  | fuel + 1, work, c :: rest =>
    let seen (work : Work) : Work := { work with previous := some c }
    match c, rest with
    | '?', _ => tokens? fuel (seen (work.push .anyByte)) rest
    | '*', '*' :: rest =>
      let (work, takesSlash) := doubleStar work rest.head?
      if takesSlash then tokens? fuel { work with previous := some '/' } rest.tail
      else tokens? fuel (seen work) rest
    | '*', _ => tokens? fuel (seen (work.push .star)) rest
    | '[', _ => do
      let (token, rest) ← class? rest
      tokens? fuel { work.push token with previous := some ']' } rest
    | '{', _ => tokens? fuel (seen work.openBrace) rest
    | '}', _ => do
      let work ← work.closeBrace?
      tokens? fuel (seen work) rest
    | ',', _ => tokens? fuel (seen work.comma) rest
    | '\\', escaped :: rest =>
      tokens? fuel { work.push (.literal escaped) with previous := some escaped } rest
    | '\\', [] => none
    | c, _ => tokens? fuel (seen (work.push (.literal c))) rest

/-- The tokens of a pattern, if it is well formed. -/
def parse? (pattern : String) : Option (List Token) :=
  tokens? (pattern.toList.length + 1) Work.empty pattern.toList

end LintLayer.Glob
