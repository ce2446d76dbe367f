import LintLayer.Number.Shortest

/-!
# Numbers with a fraction or an exponent

Reading collects the digits into a significand of 64 bits and scales it by
powers of ten, and every step rounds.  So the number read is close to the
decimal but not always the nearest one to it.

Writing takes the fewest digits.  Numbers from `10 ^ -5` up to `10 ^ 16` are
written with a point, others with an exponent that has a sign.
-/

namespace LintLayer.Json

/-- A number with 53 binary digits and a sign; zero has one, too. -/
structure Real where
  negative : Bool
  size : Binary
  deriving DecidableEq, Repr, Inhabited

namespace Real

/-- Appends digits to a significand while it stays below `2 ^ 64`.  The
second part holds the digits that are left. -/
def collect (significand : Nat) : List Char → Nat × List Char
  | [] => (significand, [])
  | c :: cs =>
    let next := significand * 10 + (c.toNat - '0'.toNat)
    if next < Nat.pow 2 64 then collect next cs else (significand, c :: cs)

/-- The greatest power of ten that is a number. -/
def greatestPower : Nat := 308

/-- Divides a number by `10 ^ power`, by at most the greatest power at a
time.  `steps` bounds the number of divisions; after three of them nothing
is left of a significand of 64 bits. -/
def divideBy? : Nat → Binary → Nat → Option Binary
  | 0, _, _ => some .zero
  | steps + 1, x, power => do
    if x.significand = 0 then return x
    else if power ≤ greatestPower then x.div? (← Binary.ofDecimal? 1 power)
    else divideBy? steps (← x.div? (← Binary.ofDecimal? 1 greatestPower)) (power - greatestPower)

/-- Scales a significand by a power of ten.  There is no result above the
greatest number. -/
def scale? (significand : Nat) (exponent : Int) : Option Binary := do
  let x ← Binary.nearest? significand 1
  if exponent < 0 then divideBy? 4 x (-exponent).toNat
  else if x.significand = 0 then return x
  else if exponent ≤ greatestPower then x.mul? (← Binary.ofDecimal? 1 exponent)
  else none

/-- The number of written digits.  Digits that do not fit into the
significand count as zeros before the point, and not at all behind it. -/
def read? (negative : Bool) (whole fraction : List Char) (exponent : Int) : Option Real := do
  let (significand, zeros) := collect 0 whole
  let (significand, ignored) := collect significand fraction
  let places : Int := (fraction.length : Int) - ignored.length
  let size ← scale? significand (exponent + zeros.length - places)
  return ⟨negative, size⟩

/-- The digits of a number with the point in its place, and at least one
digit after it. -/
def positional (digits : Nat) (exponent : Int) : String :=
  let text := toString digits
  if 0 ≤ exponent then text ++ String.ofList (List.replicate exponent.toNat '0') ++ ".0"
  else
    let places := (-exponent).toNat
    let padded := List.replicate (places + 1 - text.length) '0' ++ text.toList
    let whole := padded.take (padded.length - places)
    let fraction := padded.drop (padded.length - places)
    String.ofList (whole ++ '.' :: fraction)

/-- The digits with a point after the first one, if there are more, and the
exponent of the first one. -/
def scientific (digits : Nat) (exponent : Int) : String :=
  let mantissa := match (toString digits).toList with
    | first :: second :: more => first :: '.' :: second :: more
    | cs => cs
  let sign := if exponent < 0 then "e-" else "e+"
  String.ofList mantissa ++ sign ++ toString exponent.natAbs

/-- The number as text. -/
def render (x : Real) : String :=
  let body :=
    if x.size.significand = 0 then "0.0"
    else
      let (digits, exponent) := x.size.shortest
      let first : Int := exponent + Binary.digitCount digits - 1
      if -5 ≤ first && first ≤ 15 then positional digits exponent else scientific digits first
  if x.negative then "-" ++ body else body

end Real

end LintLayer.Json
