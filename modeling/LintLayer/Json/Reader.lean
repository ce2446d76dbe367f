import LintLayer.Json.Basic

/-!
# Reading JSON text

The reader takes one value with blanks around it and nothing after it.
Raw control characters in strings, leading zeros, comments and trailing
commas are refused.  A literal without a value is read as `unreadable`.
-/

namespace LintLayer.Json.Reader

/-- The greatest nesting of arrays and objects that can be read. -/
def depthLimit : Nat := 127

/-- Blanks between tokens. -/
def isBlank (c : Char) : Bool :=
  c = ' ' || c = '\t' || c = '\n' || c = '\r'

/-- The text after leading blanks. -/
def skip (cs : List Char) : List Char :=
  cs.dropWhile isBlank

/-- The value of a hexadecimal digit. -/
def hexDigit? (c : Char) : Option Nat :=
  if '0' ≤ c ∧ c ≤ '9' then some (c.toNat - '0'.toNat)
  else if 'a' ≤ c ∧ c ≤ 'f' then some (c.toNat - 'a'.toNat + 10)
  else if 'A' ≤ c ∧ c ≤ 'F' then some (c.toNat - 'A'.toNat + 10)
  else none

/-- The code unit of four hexadecimal digits. -/
def hexUnit? (a b c d : Char) : Option Nat := do
  let a ← hexDigit? a
  let b ← hexDigit? b
  let c ← hexDigit? c
  let d ← hexDigit? d
  return ((a * 16 + b) * 16 + c) * 16 + d

/-- The character of a one-letter escape. -/
def escape? : Char → Option Char
  | '"' => some '"'
  | '\\' => some '\\'
  | '/' => some '/'
  | 'b' => some '\x08'
  | 'f' => some '\x0c'
  | 'n' => some '\n'
  | 'r' => some '\r'
  | 't' => some '\t'
  | _ => none

/-- One item of a string: a character, or one code unit. -/
inductive Item where
  | char (c : Char)
  | unit (value : Nat)

/-- The items of a string up to its closing quote.  `done` holds the items
before, the last one first. -/
def items : List Char → List Item → Option (List Item × List Char)
  | [], _ => none
  | '"' :: rest, done => some (done.reverse, rest)
  | '\\' :: 'u' :: a :: b :: c :: d :: rest, done => do
    let unit ← hexUnit? a b c d
    items rest (.unit unit :: done)
  | '\\' :: c :: rest, done => do
    let c ← escape? c
    items rest (.char c :: done)
  | c :: rest, done =>
    if c.toNat < 0x20 ∨ c = '\\' then none else items rest (.char c :: done)

/-- The characters of the items.  There are none when half of a surrogate
pair stands alone. -/
def chars? : List Item → Option (List Char)
  | [] => some []
  | .char c :: rest => (chars? rest).map (c :: ·)
  | .unit high :: .unit low :: rest =>
    if 0xD800 ≤ high ∧ high < 0xDC00 then
      if 0xDC00 ≤ low ∧ low < 0xE000 then
        (chars? rest).map (Char.ofNat (0x10000 + (high - 0xD800) * 0x400 + (low - 0xDC00)) :: ·)
      else none
    else if 0xDC00 ≤ high ∧ high < 0xE000 then none
    else (chars? (.unit low :: rest)).map (Char.ofNat high :: ·)
  | .unit unit :: rest =>
    if 0xD800 ≤ unit ∧ unit < 0xE000 then none
    else (chars? rest).map (Char.ofNat unit :: ·)

/-- A string after its opening quote.  The text is missing when it cannot
be read. -/
def string? (cs : List Char) : Option (Option String × List Char) := do
  let (found, rest) ← items cs []
  return ((chars? found).map String.ofList, rest)

/-- The digits at the start of a text, and the rest. -/
def digits (cs : List Char) : List Char × List Char :=
  (cs.takeWhile Char.isDigit, cs.dropWhile Char.isDigit)

/-- The value of a list of digits. -/
def digitsValue (cs : List Char) : Nat :=
  cs.foldl (fun value c => value * 10 + (c.toNat - '0'.toNat)) 0

/-- The exponent of a number: its value, whether one is written, and the
rest. -/
def exponent? (cs : List Char) : Option (Int × Bool × List Char) :=
  match cs with
  | c :: rest =>
    if c = 'e' ∨ c = 'E' then
      let (negative, rest) := match rest with
        | '-' :: rest => (true, rest)
        | '+' :: rest => (false, rest)
        | rest => (false, rest)
      match digits rest with
      | ([], _) => none
      | (found, rest) =>
        let value : Int := digitsValue found
        some (if negative then -value else value, true, rest)
    else some (0, false, cs)
  | [] => some (0, false, [])

/-- The fraction of a number: its digits, whether one is written, and the
rest. -/
def fraction? (cs : List Char) : Option (List Char × Bool × List Char) :=
  match cs with
  | '.' :: rest =>
    match digits rest with
    | ([], _) => none
    | (found, rest) => some (found, true, rest)
  | cs => some ([], false, cs)

/-- The value of a written number.  One without fraction and exponent is an
integer while it fits into 64 bits; minus zero is a float. -/
def numberValue (negative : Bool) (whole fraction : List Char) (written : Bool)
    (exponent : Int) : Json :=
  let value := digitsValue whole
  if !written && !negative && value < Nat.pow 2 64 then .int value
  else if !written && negative && 0 < value && value ≤ Nat.pow 2 63 then .int (-(value : Int))
  else ((Real.read? negative whole fraction exponent).map Json.float).getD .unreadable

/-- A number. -/
def number? (cs : List Char) : Option (Json × List Char) := do
  let (negative, cs) := match cs with
    | '-' :: rest => (true, rest)
    | cs => (false, cs)
  let (whole, rest) ← match digits cs with
    | ([], _) => none
    | ('0' :: _ :: _, _) => none
    | found => some found
  let (fraction, hasFraction, rest) ← fraction? rest
  let (exponent, hasExponent, rest) ← exponent? rest
  return (numberValue negative whole fraction (hasFraction || hasExponent) exponent, rest)

/-- A keyword and its value. -/
def keyword? : List Char → Option (Json × List Char)
  | 'n' :: 'u' :: 'l' :: 'l' :: rest => some (.null, rest)
  | 't' :: 'r' :: 'u' :: 'e' :: rest => some (.bool true, rest)
  | 'f' :: 'a' :: 'l' :: 's' :: 'e' :: rest => some (.bool false, rest)
  | _ => none

/-- A container at a nesting level, unreadable when it lies too deep. -/
def atLevel (level : Nat) (value : Json) : Json :=
  if level ≤ depthLimit then value else .unreadable

mutual

/-- One value inside `level` containers, after leading blanks.  `fuel`
bounds the number of calls. -/
def value? : Nat → Nat → List Char → Option (Json × List Char)
  | 0, _, _ => none
  | fuel + 1, level, cs =>
    match skip cs with
    | '"' :: rest => do
      let (text, rest) ← string? rest
      return ((text.map Json.str).getD .unreadable, rest)
    | '[' :: rest =>
      match skip rest with
      | ']' :: rest => some (atLevel (level + 1) (.arr []), rest)
      | rest => do
        let (found, rest) ← items? fuel (level + 1) rest
        return (atLevel (level + 1) (.arr found), rest)
    | '{' :: rest =>
      match skip rest with
      | '}' :: rest => some (atLevel (level + 1) (.obj []), rest)
      | rest => do
        let (found, rest) ← members? fuel (level + 1) rest
        return (atLevel (level + 1) ((found.map Json.obj).getD .unreadable), rest)
    | '-' :: rest => number? ('-' :: rest)
    | c :: rest => if c.isDigit then number? (c :: rest) else keyword? (c :: rest)
    | [] => none

/-- The items of an array up to its closing bracket. -/
def items? : Nat → Nat → List Char → Option (List Json × List Char)
  | 0, _, _ => none
  | fuel + 1, level, cs => do
    let (item, rest) ← value? fuel level cs
    match skip rest with
    | ',' :: rest =>
      let (found, rest) ← items? fuel level rest
      return (item :: found, rest)
    | ']' :: rest => return ([item], rest)
    | _ => none

/-- The members of an object up to its closing brace.  They are missing
when a key cannot be read. -/
def members? : Nat → Nat → List Char → Option (Option (List (String × Json)) × List Char)
  | 0, _, _ => none
  | fuel + 1, level, cs => do
    let '"' :: rest := skip cs | none
    let (key, rest) ← string? rest
    let ':' :: rest := skip rest | none
    let (value, rest) ← value? fuel level rest
    match skip rest with
    | ',' :: rest =>
      let (found, rest) ← members? fuel level rest
      return ((do return (← key, value) :: (← found)), rest)
    | '}' :: rest => return (key.map fun key => [(key, value)], rest)
    | _ => none

end

end Reader

/-- The value of a JSON text, every member in its place. -/
def parse? (text : String) : Option Json := do
  let cs := text.toList
  let (value, rest) ← Reader.value? (2 * cs.length + 2) 0 cs
  if (Reader.skip rest).isEmpty then some value else none

/-- The value of a JSON text when all of it can be read.  The members of an
object are sorted by key and the last of equal keys counts. -/
def parseValue? (text : String) : Option Json := do
  let value ← parse? text
  if value.isReadable then some value.sorted else none

end LintLayer.Json
