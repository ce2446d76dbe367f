import LintLayer.Batch
import LintLayer.Report.Finding
import Mathlib.Data.List.Chain

/-!
# The greedy rule in code units

The rule that picks the fixes of a batch, stated on the replacements as the
analyzer gives them.  The fixes are taken by their first start, and a fix is
kept exactly if it starts behind the end of the last replacement kept so
far.

* `kept_map_eq` compares it with the batch of edits: a map from replacements
  to edits that keeps the order of starts and stops picks the same fixes.
* `pairwise_flatten_chosen` says what the rule is for: the replacements of
  all kept fixes together ascend, as those of each fix do.
-/

namespace LintLayer

/-- `first` ends where `second` starts, or before, and starts before it. -/
def Replacement.Before (first second : Replacement) : Prop :=
  first.start < second.start ∧ first.stop ≤ second.start

theorem Replacement.Before.trans {first second third : Replacement}
    (h : first.Before second) (h' : second.Before third) : first.Before third := by
  obtain ⟨hstart, hstop⟩ := h
  obtain ⟨hstart', hstop'⟩ := h'
  exact ⟨by omega, by omega⟩

instance : Trans Replacement.Before Replacement.Before Replacement.Before :=
  ⟨Replacement.Before.trans⟩

namespace Fix

/-! ## The rule -/

/-- The first start of a fix. -/
def firstStart (fix : List Replacement) : Nat :=
  (fix.head?.map Replacement.start).getD 0

/-- The fixes by their first start; equal starts keep their order. -/
def byFirstStart (fixes : List (List Replacement)) : List (List Replacement) :=
  fixes.mergeSort fun a b => decide (firstStart a ≤ firstStart b)

/-- Keeps a further fix exactly if it starts behind the end of the last
replacement kept so far. -/
def keep (kept : List (List Replacement)) (fix : List Replacement) : List (List Replacement) :=
  if kept.flatten.getLast?.all fun last => last.stop < firstStart fix then kept ++ [fix] else kept

/-- The fixes that the greedy rule keeps. -/
def chosen (fixes : List (List Replacement)) : List (List Replacement) :=
  (byFirstStart fixes).foldl keep []

/-! ## The same fixes as edits -/

/-- The edits of the replacements in `P` are ordered as the replacements
are. -/
structure KeepsOrder (P : Replacement → Prop) (edit : Replacement → Edit) : Prop where
  start_le_iff : ∀ a b, P a → P b →
    ((edit a).span.start ≤ (edit b).span.start ↔ a.start ≤ b.start)
  stop_lt_iff : ∀ a b, P a → P b →
    ((edit a).span.stop < (edit b).span.start ↔ a.stop < b.start)

variable {P : Replacement → Prop} {edit : Replacement → Edit}

theorem exists_mem_firstStart (edit : Replacement → Edit) {fix : List Replacement}
    (hfix : fix ≠ []) :
    ∃ first ∈ fix, firstStart fix = first.start ∧
      Batch.firstStart (fix.map edit) = (edit first).span.start := by
  cases fix with
  | nil => exact absurd rfl hfix
  | cons first more => exact ⟨first, by simp, rfl, rfl⟩

theorem firstStart_le_iff (horder : KeepsOrder P edit) {a b : List Replacement}
    (ha : a ≠ []) (hb : b ≠ []) (hPa : ∀ r ∈ a, P r) (hPb : ∀ r ∈ b, P r) :
    Batch.firstStart (a.map edit) ≤ Batch.firstStart (b.map edit) ↔
      firstStart a ≤ firstStart b := by
  obtain ⟨first, hfirst, hstart, hstart'⟩ := exists_mem_firstStart edit ha
  obtain ⟨second, hsecond, hstop, hstop'⟩ := exists_mem_firstStart edit hb
  rw [hstart, hstart', hstop, hstop']
  exact horder.start_le_iff first second (hPa first hfirst) (hPb second hsecond)

theorem startsAfter_map_eq (horder : KeepsOrder P edit) {last : Option Replacement}
    {fix : List Replacement} (hfix : fix ≠ []) (hlast : ∀ r ∈ last, P r)
    (hP : ∀ r ∈ fix, P r) :
    Batch.startsAfter (last.map edit) (fix.map edit) =
      last.all fun r => r.stop < firstStart fix := by
  obtain ⟨first, hfirst, hstart, hstart'⟩ := exists_mem_firstStart edit hfix
  cases last with
  | none => rfl
  | some r =>
    have hiff := horder.stop_lt_iff r first (hlast r rfl) (hP first hfirst)
    simp only [Option.map_some, Batch.startsAfter, Option.all_some, hstart, hstart']
    exact decide_eq_decide.mpr hiff

/-- The scan of the edits follows the rule from any state: it keeps the fix
that the rule keeps next. -/
theorem map_foldl_keep (horder : KeepsOrder P edit) (fixes kept : List (List Replacement))
    (hne : ∀ fix ∈ fixes, fix ≠ []) (hP : ∀ fix ∈ fixes, ∀ r ∈ fix, P r)
    (hkept : ∀ r ∈ kept.flatten, P r) :
    (fixes.foldl keep kept).map (List.map edit) =
      kept.map (List.map edit) ++
        Batch.scan (kept.flatten.getLast?.map edit) (fixes.map (List.map edit)) := by
  induction fixes generalizing kept with
  | nil => simp [Batch.scan]
  | cons fix fixes ih =>
    have hfix : fix ≠ [] := hne fix (by simp)
    have hne' : ∀ other ∈ fixes, other ≠ [] := fun other h => hne other (by simp [h])
    have hP' : ∀ other ∈ fixes, ∀ r ∈ other, P r := fun other h => hP other (by simp [h])
    have hlast : ∀ r ∈ kept.flatten.getLast?, P r := fun r hr =>
      hkept r (List.mem_of_getLast? hr)
    have hstarts := startsAfter_map_eq horder hfix hlast (hP fix (by simp))
    rw [List.foldl_cons, List.map_cons, Batch.scan, hstarts, keep]
    by_cases hafter : (kept.flatten.getLast?.all fun last => last.stop < firstStart fix) = true
    · rw [if_pos hafter, if_pos hafter]
      have hgrown : ∀ r ∈ (kept ++ [fix]).flatten, P r := by
        intro r hr
        rw [List.flatten_append, List.mem_append] at hr
        rcases hr with hr | hr
        · exact hkept r hr
        · exact hP fix (by simp) r (by simpa using hr)
      have hend : (kept ++ [fix]).flatten.getLast?.map edit =
          (fix.map edit).getLast?.or (kept.flatten.getLast?.map edit) := by
        rw [List.flatten_append, List.getLast?_append, List.getLast?_map]
        simp only [List.flatten_cons, List.flatten_nil, List.append_nil]
        cases fix.getLast? <;> rfl
      rw [ih (kept ++ [fix]) hne' hP' hgrown, hend, List.map_append]
      simp only [List.map_cons, List.map_nil, List.append_assoc, List.singleton_append]
    · rw [if_neg hafter, if_neg hafter]
      exact ih kept hne' hP' hkept

/-- The batch of the edits consists of the edits of the chosen fixes. -/
theorem kept_map_eq (horder : KeepsOrder P edit) (fixes : List (List Replacement))
    (hne : ∀ fix ∈ fixes, fix ≠ []) (hP : ∀ fix ∈ fixes, ∀ r ∈ fix, P r) :
    Batch.kept (fixes.map (List.map edit)) = (chosen fixes).map (List.map edit) := by
  have hfilter : (fixes.map (List.map edit)).filter (fun fix => !fix.isEmpty) =
      fixes.map (List.map edit) := by
    rw [List.filter_eq_self]
    intro edits hedits
    obtain ⟨fix, hfix, rfl⟩ := List.mem_map.mp hedits
    simpa using hne fix hfix
  have hsort : Batch.inOrder (fixes.map (List.map edit)) =
      (byFirstStart fixes).map (List.map edit) := by
    rw [Batch.inOrder, hfilter, byFirstStart]
    refine (List.map_mergeSort ?_).symm
    intro a ha b hb
    exact decide_eq_decide.mpr
      (firstStart_le_iff horder (hne a ha) (hne b hb) (hP a ha) (hP b hb)).symm
  have hmem : ∀ fix ∈ byFirstStart fixes, fix ∈ fixes := fun fix h =>
    (List.mergeSort_perm fixes _).mem_iff.mp h
  have hscan := map_foldl_keep horder (byFirstStart fixes) []
    (fun fix h => hne fix (hmem fix h)) (fun fix h => hP fix (hmem fix h)) (by simp)
  rw [Batch.kept, hsort, chosen, hscan]
  simp

/-! ## What the rule keeps -/

theorem mem_of_mem_foldl_keep {fixes kept : List (List Replacement)} {fix : List Replacement}
    (h : fix ∈ fixes.foldl keep kept) : fix ∈ kept ∨ fix ∈ fixes := by
  induction fixes generalizing kept with
  | nil => exact Or.inl h
  | cons other fixes ih =>
    rcases ih h with hkept | hfixes
    · rw [keep] at hkept
      split at hkept
      · rcases List.mem_append.mp hkept with hkept | hother
        · exact Or.inl hkept
        · exact Or.inr (by simp [List.mem_singleton.mp hother])
      · exact Or.inl hkept
    · exact Or.inr (by simp [hfixes])

/-- Only given fixes are chosen. -/
theorem mem_of_mem_chosen {fixes : List (List Replacement)} {fix : List Replacement}
    (h : fix ∈ chosen fixes) : fix ∈ fixes := by
  rcases mem_of_mem_foldl_keep h with hnil | hsorted
  · simp at hnil
  · exact (List.mergeSort_perm fixes _).mem_iff.mp hsorted

/-- In an ascending list no replacement ends behind the last one. -/
theorem stop_le_of_getLast? {replacements : List Replacement} {last : Replacement}
    (hascending : replacements.Pairwise Replacement.Before)
    (hlast : replacements.getLast? = some last) {r : Replacement} (hr : r ∈ replacements) :
    r.stop ≤ last.stop := by
  obtain ⟨earlier, rfl⟩ := List.getLast?_eq_some_iff.mp hlast
  have hcross := (List.pairwise_append.mp hascending).2.2
  rcases List.mem_append.mp hr with hr | hr
  · have hbefore := (hcross r hr last (by simp)).2
    have hends := last.start_le_stop
    omega
  · rw [List.mem_singleton.mp hr]

/-- In an ascending list no replacement starts before the first one. -/
theorem firstStart_le_of_mem {fix : List Replacement}
    (hascending : fix.Pairwise Replacement.Before) {r : Replacement} (hr : r ∈ fix) :
    firstStart fix ≤ r.start := by
  cases fix with
  | nil => simp at hr
  | cons first more =>
    change first.start ≤ r.start
    rcases List.mem_cons.mp hr with rfl | hr
    · exact Nat.le_refl _
    · exact Nat.le_of_lt ((List.pairwise_cons.mp hascending).1 r hr).1

/-- One more fix, behind the last kept replacement, leaves the kept
replacements in ascending order. -/
theorem pairwise_flatten_keep {kept : List (List Replacement)} {fix : List Replacement}
    (hkept : kept.flatten.Pairwise Replacement.Before)
    (hfix : fix.Pairwise Replacement.Before) :
    (keep kept fix).flatten.Pairwise Replacement.Before := by
  rw [keep]
  split
  · rename_i hafter
    simp only [List.flatten_append, List.flatten_cons, List.flatten_nil, List.append_nil]
    refine List.pairwise_append.mpr ⟨hkept, hfix, ?_⟩
    intro r hr s hs
    obtain ⟨last, hlast⟩ : ∃ last, kept.flatten.getLast? = some last :=
      Option.isSome_iff_exists.mp (by simpa using List.ne_nil_of_mem hr)
    have hbehind : last.stop < firstStart fix := by simpa [hlast] using hafter
    have hstop := stop_le_of_getLast? hkept hlast hr
    have hstart := firstStart_le_of_mem hfix hs
    have hends := r.start_le_stop
    exact ⟨by omega, by omega⟩
  · exact hkept

theorem pairwise_flatten_foldl_keep (fixes kept : List (List Replacement))
    (hkept : kept.flatten.Pairwise Replacement.Before)
    (hfixes : ∀ fix ∈ fixes, fix.Pairwise Replacement.Before) :
    (fixes.foldl keep kept).flatten.Pairwise Replacement.Before := by
  induction fixes generalizing kept with
  | nil => exact hkept
  | cons fix fixes ih =>
    exact ih (keep kept fix) (pairwise_flatten_keep hkept (hfixes fix (by simp)))
      fun other h => hfixes other (by simp [h])

/-- The replacements of the chosen fixes ascend. -/
theorem pairwise_flatten_chosen (fixes : List (List Replacement))
    (hfixes : ∀ fix ∈ fixes, fix.Pairwise Replacement.Before) :
    (chosen fixes).flatten.Pairwise Replacement.Before :=
  pairwise_flatten_foldl_keep _ [] List.Pairwise.nil fun fix h =>
    hfixes fix ((List.mergeSort_perm fixes _).mem_iff.mp h)

end Fix

end LintLayer
