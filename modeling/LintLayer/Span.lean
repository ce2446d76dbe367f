/-!
# Spans

A span is a range of byte offsets in one snapshot of a text, given by its
start and its length.

`stop` is the exact end.  The program adds start and length in 64 bits; this
is `stopIn`.  A span of a text has its end in the text, so there the two are
the same, but a span that comes from elsewhere can have any start and any
length.
-/

namespace LintLayer

/-- A range of `length` bytes from `start` on. -/
structure Span where
  start : Nat
  length : Nat
  deriving DecidableEq, Repr

/-- What a sum is that needs more than 64 bits: in a build that checks its
sums the program stops, in any other the upper bits are lost. -/
inductive Arithmetic where
  | checked
  | wrapping
  deriving DecidableEq, Repr

namespace Span

/-- The span from `start` to `stop`.  It is empty at `start` when `stop`
comes before `start`. -/
def ofBounds (start stop : Nat) : Span :=
  ⟨start, stop - start⟩

/-- The empty span at an offset. -/
def emptyAt (offset : Nat) : Span :=
  ⟨offset, 0⟩

/-- The offset after the last byte. -/
def stop (span : Span) : Nat :=
  span.start + span.length

/-- The end as the program computes it, or `none` where the sum stops it. -/
def stopIn (arithmetic : Arithmetic) (span : Span) : Option Nat :=
  if span.stop < Nat.pow 2 64 then some span.stop
  else
    match arithmetic with
    | .checked => none
    | .wrapping => some (span.stop % Nat.pow 2 64)

/-- Whether the span covers nothing. -/
def isEmpty (span : Span) : Bool :=
  span.length == 0

/-- The written form, both offsets in brackets. -/
def render (span : Span) : String :=
  s!"[{span.start},{span.stop}]"

end Span

end LintLayer
