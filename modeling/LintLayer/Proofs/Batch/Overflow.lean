import LintLayer.Proofs.Batch.Members
import LintLayer.Proofs.Edit.Overflow

/-!
# Batches and ends that need more than 64 bits

The scan computes the end of the last edit it has taken, in 64 bits.

* `keptIn_of_lt`: where the ends of all edits are numbers of 64 bits, the
  program's batch is the one with exact ends.
* `selectIn_checked_pair` and `selectIn_wrapping_pair`: for any other edit and
  one that starts behind its start, the program stops or takes the two together.
-/

namespace LintLayer.Batch

variable {arithmetic : Arithmetic}

/-! ## Ends of 64 bits -/

theorem startsAfterIn_of_lt {last : Option Edit}
    (h : ∀ edit ∈ last, edit.span.stop < Nat.pow 2 64) (fix : List Edit) :
    startsAfterIn arithmetic last fix = some (startsAfter last fix) := by
  cases last with
  | none => rfl
  | some edit => rw [startsAfterIn, Span.stopIn_of_lt (h edit rfl), Option.map_some, startsAfter]

theorem scanIn_of_lt {last : Option Edit} {fixes : List (List Edit)}
    (hlast : ∀ edit ∈ last, edit.span.stop < Nat.pow 2 64)
    (hfixes : ∀ fix ∈ fixes, ∀ edit ∈ fix, edit.span.stop < Nat.pow 2 64) :
    scanIn arithmetic last fixes = some (scan last fixes) := by
  induction fixes generalizing last with
  | nil => rfl
  | cons fix fixes ih =>
    have hrest : ∀ other ∈ fixes, ∀ edit ∈ other, edit.span.stop < Nat.pow 2 64 :=
      fun other hother => hfixes other (by simp [hother])
    rw [scanIn, startsAfterIn_of_lt hlast, scan]
    cases startsAfter last fix with
    | false => exact ih hlast hrest
    | true =>
      have hnewest : ∀ edit ∈ fix.getLast?.or last, edit.span.stop < Nat.pow 2 64 := by
        intro edit hedit
        rcases Option.or_eq_some_iff.mp hedit with hedit | ⟨-, hedit⟩
        · exact hfixes fix (by simp) edit (List.mem_of_getLast? hedit)
        · exact hlast edit hedit
      simp [ih hnewest hrest]

theorem keptIn_of_lt {fixes : List (List Edit)}
    (h : ∀ fix ∈ fixes, ∀ edit ∈ fix, edit.span.stop < Nat.pow 2 64) :
    keptIn arithmetic fixes = some (kept fixes) :=
  scanIn_of_lt nofun fun fix hfix => h fix (mem_inOrder.mp hfix).1

theorem selectIn_of_lt {fixes : List (List Edit)}
    (h : ∀ fix ∈ fixes, ∀ edit ∈ fix, edit.span.stop < Nat.pow 2 64) :
    selectIn arithmetic fixes = some (select fixes) := by
  rw [selectIn, keptIn_of_lt h, Option.map_some, select]

/-! ## Ends of more bits -/

theorem inOrder_pair {a b : List Edit} (ha : a ≠ []) (hb : b ≠ [])
    (hle : firstStart a ≤ firstStart b) : inOrder [a, b] = [a, b] := by
  rw [inOrder, List.filter_eq_self.mpr (by simp [ha, hb])]
  exact List.mergeSort_of_pairwise (by simpa using hle)

section Pair

variable {far near : Edit}

/-- An edit whose end needs more than 64 bits, and one that starts behind its
start: the program stops. -/
theorem selectIn_checked_pair (h : Nat.pow 2 64 ≤ far.span.stop)
    (hle : far.span.start ≤ near.span.start) : selectIn .checked [[far], [near]] = none := by
  rw [selectIn, keptIn, inOrder_pair (List.cons_ne_nil _ _) (List.cons_ne_nil _ _) hle]
  simp [scanIn, startsAfterIn, Span.stopIn_checked_of_le h]

/-- An edit whose end needs more than 64 bits, and one that starts behind its
start: where the sum is not checked, the two are taken together. -/
theorem selectIn_wrapping_pair (hwords : far.span.IsWords) (h : Nat.pow 2 64 ≤ far.span.stop)
    (hle : far.span.start ≤ near.span.start) :
    selectIn .wrapping [[far], [near]] = some [far, near] := by
  have hbefore : far.span.stop % Nat.pow 2 64 < firstStart [near] :=
    Nat.lt_of_lt_of_le (hwords.stop_mod_lt h) hle
  rw [selectIn, keptIn, inOrder_pair (List.cons_ne_nil _ _) (List.cons_ne_nil _ _) hle]
  simp [scanIn, startsAfterIn, Span.stopIn_wrapping_of_le h, hbefore]

end Pair

end LintLayer.Batch
