import LintLayer.Batch
import Mathlib.Data.List.Basic

/-!
# The members of a batch

A batch holds whole fixes out of those that are given.  It leaves out the
fixes without edits, and it is empty only when there are no others.
-/

namespace LintLayer.Batch

theorem mem_inOrder {fixes : List (List Edit)} {fix : List Edit} :
    fix ∈ inOrder fixes ↔ fix ∈ fixes ∧ fix ≠ [] := by
  rw [inOrder, (List.mergeSort_perm _ _).mem_iff, List.mem_filter]
  simp

theorem scan_sublist (last : Option Edit) (fixes : List (List Edit)) :
    (scan last fixes).Sublist fixes := by
  induction fixes generalizing last with
  | nil => exact List.Sublist.refl []
  | cons fix fixes ih =>
    rw [scan]
    split
    · exact (ih _).cons_cons fix
    · exact (ih _).cons fix

theorem mem_of_mem_kept {fixes : List (List Edit)} {fix : List Edit} (h : fix ∈ kept fixes) :
    fix ∈ fixes ∧ fix ≠ [] :=
  mem_inOrder.mp ((scan_sublist none _).subset h)

/-- A batch holds edits of the given fixes only. -/
theorem exists_mem_of_mem_select {fixes : List (List Edit)} {edit : Edit}
    (h : edit ∈ select fixes) : ∃ fix ∈ fixes, edit ∈ fix := by
  obtain ⟨fix, hfix, hedit⟩ := List.mem_flatten.mp h
  exact ⟨fix, (mem_of_mem_kept hfix).1, hedit⟩

/-- A batch is empty only where no fix edits anything: the first fix in order
is always taken. -/
theorem select_eq_nil_iff {fixes : List (List Edit)} :
    select fixes = [] ↔ ∀ fix ∈ fixes, fix = [] := by
  constructor
  · intro hnil fix hfix
    by_contra hne
    obtain ⟨first, rest, horder⟩ := List.exists_cons_of_ne_nil
      (List.ne_nil_of_mem (mem_inOrder.mpr ⟨hfix, hne⟩))
    have hfirst : first ≠ [] := (mem_inOrder.mp (horder ▸ List.mem_cons_self)).2
    rw [select, kept, horder, scan, startsAfter, if_pos rfl, List.flatten_cons] at hnil
    exact hfirst (List.append_eq_nil_iff.mp hnil).1
  · intro hall
    have hnone : inOrder fixes = [] := by
      refine List.eq_nil_iff_forall_not_mem.mpr fun fix hfix => ?_
      exact (mem_inOrder.mp hfix).2 (hall fix (mem_inOrder.mp hfix).1)
    rw [select, kept, hnone, scan, List.flatten_nil]

end LintLayer.Batch
