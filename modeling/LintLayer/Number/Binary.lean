/-!
# Numbers with 53 binary digits

The numbers `significand * 2 ^ exponent` with a significand below `2 ^ 53`
and a bounded exponent.  Every operation computes an exact quotient of
natural numbers and takes the nearest number to it, a half to the even one.

- `nearest?` is the nearest number to a quotient.
- `ofDecimal?` is the nearest number to a decimal.
- `mul?` and `div?` round the exact product and the exact quotient.
-/

namespace LintLayer

/-- The number `significand * 2 ^ exponent`. -/
structure Binary where
  significand : Nat
  exponent : Int
  deriving DecidableEq, Repr, Inhabited

namespace Binary

/-- The least exponent. -/
def leastExponent : Int := -1074

/-- The greatest exponent. -/
def greatestExponent : Int := 971

/-- Nothing. -/
def zero : Binary :=
  ⟨0, leastExponent⟩

/-- The quotient of two naturals to the nearest natural, a half to the even
one. -/
def divNearest (num den : Nat) : Nat :=
  let quotient := num / den
  let twice := 2 * (num % den)
  if twice < den || (twice == den && quotient % 2 == 0) then quotient else quotient + 1

/-- The quotient `num / (den * 2 ^ exponent)` as a pair of naturals. -/
def scaled (num den : Nat) (exponent : Int) : Nat × Nat :=
  if 0 ≤ exponent then (num, den * Nat.pow 2 exponent.toNat)
  else (num * Nat.pow 2 (-exponent).toNat, den)

/-- The exponent that gives a quotient 53 digits, if it is not below the
least one. -/
def exponentOf (num den : Nat) : Int :=
  let guess : Int := (Nat.log2 num : Int) - (Nat.log2 den : Int) - 52
  let (top, bottom) := scaled num den guess
  max (if top / bottom < Nat.pow 2 52 then guess - 1 else guess) leastExponent

/-- The number nearest to a quotient.  There is none above the greatest
number. -/
def nearest? (num den : Nat) : Option Binary :=
  let exponent := exponentOf num den
  let (top, bottom) := scaled num den exponent
  let significand := divNearest top bottom
  let found : Binary := if significand = 0 then zero
    else if significand = Nat.pow 2 53 then ⟨Nat.pow 2 52, exponent + 1⟩
    else ⟨significand, exponent⟩
  if found.exponent ≤ greatestExponent then some found else none

/-- A number as a quotient of naturals. -/
def ratio (x : Binary) : Nat × Nat :=
  if 0 ≤ x.exponent then (x.significand * Nat.pow 2 x.exponent.toNat, 1)
  else (x.significand, Nat.pow 2 (-x.exponent).toNat)

/-- The product to the nearest number. -/
def mul? (x y : Binary) : Option Binary :=
  nearest? (x.ratio.1 * y.ratio.1) (x.ratio.2 * y.ratio.2)

/-- The quotient to the nearest number. -/
def div? (x y : Binary) : Option Binary :=
  nearest? (x.ratio.1 * y.ratio.2) (x.ratio.2 * y.ratio.1)

/-- The number of decimal digits. -/
def digitCount (n : Nat) : Nat :=
  (toString n).length

/-- The number nearest to `coefficient * 10 ^ exponent`.  Far outside the
range of the exponents nothing is computed. -/
def ofDecimal? (coefficient : Nat) (exponent : Int) : Option Binary :=
  let magnitude : Int := exponent + digitCount coefficient
  if coefficient = 0 || magnitude < -400 then some zero
  else if 400 < magnitude then none
  else if 0 ≤ exponent then nearest? (coefficient * Nat.pow 10 exponent.toNat) 1
  else nearest? coefficient (Nat.pow 10 (-exponent).toNat)

end Binary

end LintLayer
