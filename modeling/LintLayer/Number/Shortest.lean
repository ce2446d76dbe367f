import LintLayer.Number.Binary

/-!
# The fewest digits

`shortest` gives the decimal with the fewest digits that has a given number
as the nearest one, and of those the one closest to it.  The multiples of a
power of ten are a grid; the grids are tried from the coarse one to the fine
one, and on each only the two neighbours of the number can do.
-/

namespace LintLayer.Binary

/-- Whether `digits * 10 ^ exponent` has `x` as the nearest number. -/
def readsAs (x : Binary) (digits : Nat) (exponent : Int) : Bool :=
  ofDecimal? digits exponent == some x

/-- The two neighbours of a number among the multiples of `10 ^ exponent`,
the nearer one first, and the even one of two that are equally near. -/
def neighbours (x : Binary) (exponent : Int) : List Nat :=
  let (num, den) := if 0 ≤ exponent then (x.ratio.1, x.ratio.2 * Nat.pow 10 exponent.toNat)
    else (x.ratio.1 * Nat.pow 10 (-exponent).toNat, x.ratio.2)
  let below := num / den
  if divNearest num den = below then [below, below + 1] else [below + 1, below]

/-- The digits and the exponent of the shortest decimal, tried from one grid
down.  `grids` is the number of finer grids. -/
def shortestFrom (x : Binary) : Nat → Int → Nat × Int
  | 0, exponent => ((neighbours x exponent).headD 0, exponent)
  | grids + 1, exponent =>
    match (neighbours x exponent).find? fun digits => readsAs x digits exponent with
    | some digits => (digits, exponent)
    | none => shortestFrom x grids (exponent - 1)

/-- Moves the zeros at the end of the digits into the exponent. -/
def stripZeros : Nat → Nat → Int → Nat × Int
  | 0, digits, exponent => (digits, exponent)
  | steps + 1, digits, exponent =>
    if digits ≠ 0 && digits % 10 == 0 then stripZeros steps (digits / 10) (exponent + 1)
    else (digits, exponent)

/-- The digits and the exponent of the shortest decimal of a number that is
not zero.  The first grid is coarser than the number, and seventeen digits
always do. -/
def shortest (x : Binary) : Nat × Int :=
  let (num, den) := x.ratio
  let top : Int := if num / den = 0 then -(digitCount (den / (num + 1)) : Int) + 1
    else digitCount (num / den)
  let (digits, exponent) := shortestFrom x 24 top
  stripZeros 24 digits exponent

end LintLayer.Binary
