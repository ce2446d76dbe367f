import LintLayer.Glob.Basic

/-!
# How deep a pattern is nested

Written out over bytes, a pattern is a sequence of elements, and an element
can hold further sequences.  A set of patterns is refused as a whole when
one of them has more than `nestingLimit` levels, so that a long row of open
braces costs nothing.
-/

namespace LintLayer.Glob

/-- The greatest number of levels of a pattern. -/
def nestingLimit : Nat := 250

/-- The greatest of some numbers of levels. -/
def deepest (levels : List Nat) : Nat :=
  levels.foldl max 0

/-- The levels of a sequence of elements; one element alone adds none. -/
def sequenceLevels (elements : List Nat) : Nat :=
  if 2 ≤ elements.length then deepest elements + 1 else deepest elements

mutual

/-- The levels of each element that a token stands for. -/
def elements : Token → List Nat
  | .literal c => (charBytes c).map fun _ => 0
  | .anyByte => [1]
  | .star => [2]
  | .anyStart => [4]
  | .anyEnd => [0, 1]
  | .anyMiddle => [4]
  | .oneOf _ ranges => [if 2 ≤ (ranges.flatMap byteRanges).length then 2 else 1]
  | .alternatives branches =>
    match branchLevels branches with
    | [] => []
    | levels => [sequenceLevels levels + 1]

/-- The levels of each branch.  A branch that stands for nothing is left
out. -/
def branchLevels : List (List Token) → List Nat
  | [] => []
  | branch :: branches =>
    if sequenceVoid branch then branchLevels branches
    else sequenceLevels (allElements branch) :: branchLevels branches

/-- The levels of each element of a sequence of tokens. -/
def allElements : List Token → List Nat
  | [] => []
  | token :: tokens => elements token ++ allElements tokens

end

/-- The levels of a whole pattern. -/
def nesting (tokens : List Token) : Nat :=
  deepest (allElements tokens) + 1

end LintLayer.Glob
