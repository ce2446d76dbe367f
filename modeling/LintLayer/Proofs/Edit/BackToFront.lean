import LintLayer.Edit
import LintLayer.Proofs.Sort.Stability

/-!
# Edits from the back to the front

The order in which a list of edits is applied: by descending start, and edits
with one start as they are listed.  `pairwise_backToFront` says how any two
edits stand in it, and `backToFront_split` takes the order apart at one
start.
-/

namespace LintLayer.Edit

theorem perm_backToFront (edits : List Edit) : (backToFront edits).Perm edits :=
  List.mergeSort_perm _ _

/-- The order that the edits are sorted by. -/
def notBefore (a b : Edit) : Bool :=
  decide (b.span.start ≤ a.span.start)

theorem notBefore_trans (a b c : Edit) (hab : notBefore a b = true) (hbc : notBefore b c = true) :
    notBefore a c = true := by
  simp only [notBefore, decide_eq_true_eq] at *
  omega

theorem notBefore_total (a b : Edit) : (notBefore a b || notBefore b a) = true := by
  simp only [notBefore, Bool.or_eq_true, decide_eq_true_eq]
  omega

theorem tied_iff {a b : Edit} : Sort.tied notBefore a b = true ↔ a.span.start = b.span.start := by
  simp only [Sort.tied, notBefore, Bool.and_eq_true, decide_eq_true_eq]
  omega

/-- Of two edits the one with the greater start comes first.  Edits with one
start come as they are listed, so what holds of listed ties still holds. -/
theorem pairwise_backToFront {R : Edit → Edit → Prop} {edits : List Edit}
    (hties : edits.Pairwise fun a b => a.span.start = b.span.start → R a b) :
    (backToFront edits).Pairwise fun a b =>
      b.span.start ≤ a.span.start ∧ (a.span.start = b.span.start → R a b) := by
  have hlisted : edits.Pairwise fun a b => Sort.tied notBefore a b = true → R a b :=
    hties.imp fun h htied => h (tied_iff.mp htied)
  refine (Sort.pairwise_mergeSort_of_ties notBefore_trans notBefore_total hlisted).imp ?_
  rintro a b ⟨hle, htie⟩
  refine ⟨of_decide_eq_true hle, fun hstart => htie ?_⟩
  simp only [notBefore, decide_eq_true_eq]
  omega

/-- The edits from an offset on come before those in front of it. -/
theorem backToFront_cut (edits : List Edit) (offset : Nat) :
    backToFront edits =
      backToFront (edits.filter fun edit => offset ≤ edit.span.start) ++
        backToFront (edits.filter fun edit => edit.span.start < offset) := by
  have h := Sort.mergeSort_eq_append notBefore_trans notBefore_total
    (p := fun edit => offset ≤ edit.span.start) ?_ edits
  · simp only [← decide_not, Nat.not_le] at h
    exact h
  · intro a b ha hb
    simp only [notBefore, decide_eq_true_eq, decide_eq_false_iff_not] at *
    omega

/-- The edits behind an offset come first, then those at it as they are
listed, and then those in front of it. -/
theorem backToFront_split (edits : List Edit) (offset : Nat) :
    backToFront edits =
      backToFront (edits.filter fun edit => offset < edit.span.start) ++
        (edits.filter fun edit => edit.span.start = offset) ++
          backToFront (edits.filter fun edit => edit.span.start < offset) := by
  have hat : backToFront (edits.filter fun edit => edit.span.start = offset) =
      edits.filter fun edit => edit.span.start = offset := by
    refine List.mergeSort_of_pairwise (List.pairwise_of_forall_mem_list fun a ha b hb => ?_)
    have ha' := of_decide_eq_true (List.mem_filter.mp ha).2
    have hb' := of_decide_eq_true (List.mem_filter.mp hb).2
    exact decide_eq_true (by omega)
  have hmiddle : ((edits.filter fun edit => offset ≤ edit.span.start).filter
      fun edit => edit.span.start < offset + 1) =
        edits.filter fun edit => edit.span.start = offset := by
    rw [List.filter_filter]
    refine List.filter_congr fun edit _ => ?_
    rw [← Bool.decide_and]
    exact decide_eq_decide.mpr (by omega)
  have hlast : ((edits.filter fun edit => offset ≤ edit.span.start).filter
      fun edit => offset + 1 ≤ edit.span.start) =
        edits.filter fun edit => offset < edit.span.start := by
    rw [List.filter_filter]
    refine List.filter_congr fun edit _ => ?_
    rw [← Bool.decide_and]
    exact decide_eq_decide.mpr (by omega)
  rw [backToFront_cut edits offset, backToFront_cut (edits.filter _) (offset + 1), hmiddle, hlast,
    hat]

end LintLayer.Edit
