import LintLayer.Proofs.Action.Group
import LintLayer.Proofs.Batch.Selection
import LintLayer.Proofs.Problem.Registry
import LintLayer.Report.Basic
import Mathlib.Data.List.Nodup

/-!
# Fixes and the order of a report

A report lists the findings of a file in some order.  The problems are kept in
this order, and a fix of many problems goes through them by their first edits.
So the order of the report counts only where two fixes start at one byte.

* `Batch.inOrder_eq_of_perm` says that fixes with different starts have one
  order, however they are listed.
* `ProblemSet.fixable_ofFindings` carries the listed findings through the
  registry, as long as no two of them share a span.
* `fixes_independent_of_listing` puts the two together for the fixes of a file
  and of a rule.
-/

namespace LintLayer

/-! ## Batches -/

namespace Batch

/-- Fixes whose first edits start at different bytes have one order. -/
theorem inOrder_eq_of_perm {fixes ordered : List (List Edit)} (hperm : fixes.Perm ordered)
    (hne : ∀ fix ∈ ordered, fix ≠ [])
    (hascending : ordered.Pairwise fun a b => firstStart a < firstStart b) :
    inOrder fixes = ordered := by
  have horder := stablyOrdered_inOrder fixes
  have hedits : (fixes.filter fun fix => !fix.isEmpty) = fixes := by
    rw [List.filter_eq_self]
    intro fix hfix
    simpa using hne fix (hperm.mem_iff.mp hfix)
  rw [hedits] at horder
  have hstarts : (ordered.map firstStart).Nodup :=
    List.pairwise_map.mpr (hascending.imp Nat.ne_of_lt)
  refine List.Perm.eq_of_pairwise ?_ horder.sorted (hascending.imp Nat.le_of_lt)
    (horder.perm.trans hperm)
  intro a b ha hb hle hge
  have hmem : a ∈ ordered := (horder.perm.trans hperm).mem_iff.mp ha
  exact List.inj_on_of_nodup_map hstarts hmem hb (Nat.le_antisymm hle hge)

end Batch

/-! ## Problems with spans of their own -/

/-- Problems of which no two share a span all keep their places. -/
theorem Problem.onePerSpan_of_nodup {problems : List Problem}
    (h : (problems.map Problem.span).Nodup) : onePerSpan problems = problems := by
  induction problems using List.reverseRecOn with
  | nil => rfl
  | append_singleton problems problem ih =>
    rw [List.map_append, List.map_singleton, List.nodup_append] at h
    obtain ⟨hbefore, -, hnew⟩ := h
    have hspan : problem.span ∉ problems.map Problem.span := by
      intro hmem
      exact hnew _ hmem _ (List.mem_singleton_self _) rfl
    rw [onePerSpan_concat_of_notMem hspan, ih hbefore]

namespace ProblemSet

/-- The problems to fix, as the findings are listed. -/
theorem fixable_ofFindings {table : LineTable} {findings : List Finding}
    (hspans : (findings.map table.spanOf).Nodup) :
    (ofFindings table findings).fixable =
      (findings.filter Finding.isFixable).map (Problem.ofFinding table) := by
  have hplaced : ((findings.map (Problem.ofFinding table)).map Problem.span).Nodup := by
    rw [List.map_map]
    exact hspans
  rw [fixable, ofFindings_eq, problems_ofProblems, Problem.onePerSpan_of_nodup hplaced,
    List.filter_map]
  rfl

theorem fixableFor_ofFindings {table : LineTable} {findings : List Finding}
    (hspans : (findings.map table.spanOf).Nodup) (rule : String) :
    (ofFindings table findings).fixableFor rule =
      ((findings.filter Finding.isFixable).filter (·.rule == some rule)).map
        (Problem.ofFinding table) := by
  rw [fixableFor, fixable_ofFindings hspans, List.filter_map]
  rfl

end ProblemSet

/-! ## Findings by the start of their fixes -/

namespace Finding

/-- The edits of the fix of a finding on the snapshot of `table`. -/
def fixEdits (table : LineTable) (finding : Finding) : List Edit :=
  (Problem.ofFinding table finding).edits

/-- The byte at which the first edit of the fix starts. -/
def fixStart (table : LineTable) (finding : Finding) : Nat :=
  Batch.firstStart (finding.fixEdits table)

/-- Findings whose fixes start at different bytes can be listed by these
starts. -/
theorem exists_ascending {table : LineTable} {findings : List Finding}
    (hstarts : (findings.map (fixStart table)).Nodup) :
    ∃ ordered : List Finding, ordered.Perm findings ∧
      ordered.Pairwise fun a b => a.fixStart table < b.fixStart table := by
  let le : Finding → Finding → Bool := fun a b => decide (a.fixStart table ≤ b.fixStart table)
  have htrans : ∀ a b c, le a b = true → le b c = true → le a c = true := by
    intro a b c hab hbc
    simp only [le, decide_eq_true_eq] at *
    omega
  have htotal : ∀ a b, (le a b || le b a) = true := by
    intro a b
    simp only [le, Bool.or_eq_true, decide_eq_true_eq]
    omega
  have hties : findings.Pairwise fun a b => Sort.tied le a b = true → False := by
    refine (List.pairwise_map.mp hstarts).imp ?_
    intro a b hne htied
    simp only [Sort.tied, le, Bool.and_eq_true, decide_eq_true_eq] at htied
    omega
  refine ⟨findings.mergeSort le, List.mergeSort_perm findings le, ?_⟩
  refine (Sort.pairwise_mergeSort_of_ties htrans htotal hties).imp ?_
  rintro a b ⟨-, hback⟩
  exact Nat.lt_of_not_le fun hle => hback (decide_eq_true hle)

/-- The batch of findings that can be fixed is scanned in the order of their
starts, in whatever order they are listed. -/
theorem select_of_ascending {table : LineTable} {findings ordered : List Finding}
    (hperm : findings.Perm ordered) (hfixable : ∀ finding ∈ ordered, finding.isFixable = true)
    (hascending : ordered.Pairwise fun a b => a.fixStart table < b.fixStart table) :
    Batch.select ((findings.map (Problem.ofFinding table)).map Problem.edits) =
      (Batch.scan none (ordered.map (fixEdits table))).flatten := by
  have hsame : ((findings.map (Problem.ofFinding table)).map Problem.edits).Perm
      (ordered.map (fixEdits table)) := by
    rw [List.map_map]
    exact hperm.map _
  have hne : ∀ fix ∈ ordered.map (fixEdits table), fix ≠ [] := by
    intro fix hfix
    obtain ⟨finding, hfinding, rfl⟩ := List.mem_map.mp hfix
    exact Problem.edits_ne_nil_of_fixable (hfixable finding hfinding)
  rw [Batch.select, Batch.kept,
    Batch.inOrder_eq_of_perm hsame hne (List.pairwise_map.mpr hascending)]

end Finding

/-! ## The fixes of a file -/

section Listing

variable {table : LineTable} {findings ordered : List Finding}
  (hspans : (findings.map table.spanOf).Nodup)
  (hperm : ordered.Perm (findings.filter Finding.isFixable))
  (hascending : ordered.Pairwise fun a b => a.fixStart table < b.fixStart table)

include hspans hperm hascending

theorem CodeAction.fixAll_of_ascending (file : Path) :
    fixAll file (ProblemSet.ofFindings table findings) =
      onFile file "Fix all auto-fixable eslint failures"
        (Batch.scan none (ordered.map (Finding.fixEdits table))).flatten := by
  have hfixable : ∀ finding ∈ ordered, finding.isFixable = true := by
    intro finding hfinding
    exact (List.mem_filter.mp (hperm.mem_iff.mp hfinding)).2
  rw [fixAll, ProblemSet.fixable_ofFindings hspans,
    Finding.select_of_ascending hperm.symm hfixable hascending]

theorem CodeAction.fixRule_of_ascending (file : Path) (rule : String) :
    fixRule file (ProblemSet.ofFindings table findings) rule =
      { onFile file ("Fix all '" ++ rule ++ "'")
          (Batch.scan none ((ordered.filter (·.rule == some rule)).map
            (Finding.fixEdits table))).flatten with
        group := some (groupOf rule)
        groupDescription := some ("Fix all '" ++ rule ++ "'") } := by
  have hfixable : ∀ finding ∈ ordered.filter (·.rule == some rule),
      finding.isFixable = true := by
    intro finding hfinding
    exact (List.mem_filter.mp (hperm.mem_iff.mp (List.mem_filter.mp hfinding).1)).2
  rw [fixRule, ProblemSet.fixableFor_ofFindings hspans,
    Finding.select_of_ascending (hperm.filter _).symm hfixable (hascending.filter _)]

end Listing

/-- Two reports list the same findings for a file, each in its own order.  If no
two of them have one span, and no two fixes start at one byte, both reports give
the same fix of the file and of every rule.  The edits are those of one scan
through the findings that can be fixed, by the start of their fixes. -/
theorem fixes_independent_of_listing (text : String) (file : Path) {first second : Report}
    (hsame : (first.findingsFor file).Perm (second.findingsFor file))
    (hspans : ((first.findingsFor file).map (LineTable.ofText text).spanOf).Nodup)
    (hstarts : (((first.findingsFor file).filter Finding.isFixable).map
      (Finding.fixStart (LineTable.ofText text))).Nodup) :
    let table := LineTable.ofText text
    let registered := fun report : Report =>
      ProblemSet.ofFindings table (report.findingsFor file)
    CodeAction.fixAll file (registered first) = CodeAction.fixAll file (registered second) ∧
      (∀ rule, CodeAction.fixRule file (registered first) rule =
        CodeAction.fixRule file (registered second) rule) ∧
      ∃ ordered : List Finding,
        ordered.Perm ((first.findingsFor file).filter Finding.isFixable) ∧
        (ordered.Pairwise fun a b => a.fixStart table < b.fixStart table) ∧
        (CodeAction.fixAll file (registered first)).changes =
          [⟨file, (Batch.scan none (ordered.map (Finding.fixEdits table))).flatten⟩] ∧
        ∀ rule, (CodeAction.fixRule file (registered first) rule).changes =
          [⟨file, (Batch.scan none ((ordered.filter (·.rule == some rule)).map
            (Finding.fixEdits table))).flatten⟩] := by
  intro table registered
  obtain ⟨ordered, hperm, hascending⟩ := Finding.exists_ascending hstarts
  have hspans' : ((second.findingsFor file).map table.spanOf).Nodup :=
    (hsame.map _).nodup hspans
  have hperm' : ordered.Perm ((second.findingsFor file).filter Finding.isFixable) :=
    hperm.trans (hsame.filter _)
  refine ⟨?_, fun rule => ?_, ordered, hperm, hascending, ?_, fun rule => ?_⟩
  · rw [CodeAction.fixAll_of_ascending hspans hperm hascending,
      CodeAction.fixAll_of_ascending hspans' hperm' hascending]
  · rw [CodeAction.fixRule_of_ascending hspans hperm hascending,
      CodeAction.fixRule_of_ascending hspans' hperm' hascending]
  · rw [CodeAction.fixAll_of_ascending hspans hperm hascending]
    rfl
  · rw [CodeAction.fixRule_of_ascending hspans hperm hascending]
    rfl

/-- A finding in the first line of a text, with a fix. -/
def findingAt (rule : String) (column : UInt32) (fix : List Replacement) : Finding :=
  { rule := some rule, message := "m", line := some 1, column := some column, fix := some ⟨fix⟩ }

/-- Of three fixes the second one touches the first and is left out.  One report
splits the findings over two spellings of the file, the other lists them from
the back. -/
theorem fixes_independent_of_listing_split :
    let letter := findingAt "quotes" 1 [.ofBounds 0 1 "e"]
    let face := findingAt "semi" 2 [.ofBounds 1 3 "f", .ofBounds 4 5 ""]
    let last := findingAt "quotes" 4 [.ofBounds 3 4 "'"]
    let note : Finding := { message := "n", line := some 2 }
    let first : Report := .ofResults [{ file := ⟨"/w/a.ts"⟩, findings := [note, letter] },
      { file := ⟨"/w/b.ts"⟩, findings := [face] },
      { file := ⟨"/w/x/../a.ts"⟩, findings := [face, last] }]
    let second : Report := .ofResults
      [{ file := ⟨"/w/./a.ts"⟩, findings := [last, face, note, letter] }]
    let table := LineTable.ofText "é😀;\n"
    let registered := fun report : Report =>
      ProblemSet.ofFindings table (report.findingsFor ⟨"/w/a.ts"⟩)
    (first.findingsFor ⟨"/w/a.ts"⟩).Perm (second.findingsFor ⟨"/w/a.ts"⟩) ∧
      ((first.findingsFor ⟨"/w/a.ts"⟩).map table.spanOf).Nodup ∧
      (((first.findingsFor ⟨"/w/a.ts"⟩).filter Finding.isFixable).map
        (Finding.fixStart table)).Nodup ∧
      CodeAction.fixAll ⟨"/w/a.ts"⟩ (registered first) =
        CodeAction.fixAll ⟨"/w/a.ts"⟩ (registered second) ∧
      CodeAction.fixRule ⟨"/w/a.ts"⟩ (registered first) "quotes" =
        CodeAction.fixRule ⟨"/w/a.ts"⟩ (registered second) "quotes" ∧
      (CodeAction.fixAll ⟨"/w/a.ts"⟩ (registered second)).changes =
        [⟨⟨"/w/a.ts"⟩, [⟨⟨0, 2⟩, "e"⟩, ⟨⟨6, 1⟩, "'"⟩]⟩] := by
  intro letter face last note first second table registered
  have hsame : (first.findingsFor ⟨"/w/a.ts"⟩).Perm (second.findingsFor ⟨"/w/a.ts"⟩) := by
    decide +kernel
  have hspans : ((first.findingsFor ⟨"/w/a.ts"⟩).map table.spanOf).Nodup := by decide +kernel
  have hstarts : (((first.findingsFor ⟨"/w/a.ts"⟩).filter Finding.isFixable).map
      (Finding.fixStart table)).Nodup := by
    decide +kernel
  obtain ⟨hall, hrule, -⟩ :=
    fixes_independent_of_listing "é😀;\n" ⟨"/w/a.ts"⟩ hsame hspans hstarts
  have hspans' : ((second.findingsFor ⟨"/w/a.ts"⟩).map table.spanOf).Nodup := by decide +kernel
  have hperm : [letter, face, last].Perm
      ((second.findingsFor ⟨"/w/a.ts"⟩).filter Finding.isFixable) := by
    decide +kernel
  have hedits := CodeAction.fixAll_of_ascending hspans' hperm (by decide +kernel) ⟨"/w/a.ts"⟩
  refine ⟨hsame, hspans, hstarts, hall, hrule "quotes", ?_⟩
  show (CodeAction.fixAll _ (ProblemSet.ofFindings table _)).changes = _
  rw [hedits]
  decide +kernel

end LintLayer
