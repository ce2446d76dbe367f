import LintLayer.Problem
import LintLayer.Proofs.Edit.Patch
import LintLayer.Proofs.Fix.Greedy
import LintLayer.Proofs.LineTable.Offset
import LintLayer.Proofs.Text.Utf16

/-!
# Fixing everything, in code units

The analyzer means its fixes as replacements of ranges of code units.  The
library turns each range into bytes, picks a batch by byte offsets, and
applies it to the text from the back.  This module proves that the detour
changes nothing: the batch holds the fixes that the greedy rule picks by
code units, and the text that comes out is, encoded in UTF-16, the encoded
text with all picked ranges replaced at once.

The link between the two sides is a list of patches.  Ascending ranges that
end between characters cut the text into patches (`exists_cuts`); the same
patches give the edits by byte offsets (`map_editOf_eq_edits`) and the
replacement of code units (`replaceUnits_utf16`).
-/

namespace LintLayer

open Text

namespace Fix

/-- The code units after all replacements at once, for replacements in
ascending order.  `units` is the part of the text from offset `position`
on, and every range counts from the start of the text. -/
def replaceUnits (position : Nat) (units : List UInt16) : List Replacement → List UInt16
  | [] => units
  | replacement :: replacements =>
    units.take (replacement.start - position) ++ utf16 replacement.text.toList ++
      replaceUnits replacement.stop (units.drop (replacement.stop - position)) replacements

/-- A fix that fits a text: every range starts and stops between two
characters, so it stays inside the text, and the ranges ascend. -/
structure Placed (text : List Char) (fix : Fix) : Prop where
  start_boundary : ∀ r ∈ fix.replacements, UnitBoundary text r.start
  stop_boundary : ∀ r ∈ fix.replacements, UnitBoundary text r.stop
  ascending : fix.replacements.IsChain fun r s => r.start < s.start ∧ r.stop ≤ s.start

theorem placed_iff {text : List Char} {fix : Fix} :
    fix.Placed text ↔
      (∀ r ∈ fix.replacements, UnitBoundary text r.start) ∧
        (∀ r ∈ fix.replacements, UnitBoundary text r.stop) ∧
          fix.replacements.IsChain fun r s => r.start < s.start ∧ r.stop ≤ s.start :=
  ⟨fun h => ⟨h.start_boundary, h.stop_boundary, h.ascending⟩, fun h => ⟨h.1, h.2.1, h.2.2⟩⟩

instance (text : List Char) (fix : Fix) : Decidable (fix.Placed text) :=
  decidable_of_iff _ placed_iff.symm

/-! ## Ranges as patches -/

/-- The patches replace the ranges, the first one counted from `position`
on. -/
inductive Cuts : Nat → List Patch → List Replacement → Prop where
  | nil {position} : Cuts position [] []
  | cons {position patch patches replacement replacements}
      (hstart : replacement.start = position + units patch.gap)
      (hstop : replacement.stop = replacement.start + units patch.old)
      (htext : replacement.text = patch.new)
      (tail : Cuts replacement.stop patches replacements) :
      Cuts position (patch :: patches) (replacement :: replacements)

/-- Ascending ranges between characters cut the rest of a text into
patches. -/
theorem exists_cuts {text : List Char} (replacements : List Replacement)
    (hstart : ∀ r ∈ replacements, UnitBoundary text r.start)
    (hstop : ∀ r ∈ replacements, UnitBoundary text r.stop)
    (hascending : replacements.Pairwise Replacement.Before)
    (before after : List Char) (htext : text = before ++ after)
    (hbefore : ∀ r ∈ replacements, units before ≤ r.start) :
    ∃ patches rest, after = Patch.source rest patches ∧
      Cuts (units before) patches replacements := by
  induction replacements generalizing before after with
  | nil => exact ⟨[], after, rfl, .nil⟩
  | cons r replacements ih =>
    obtain ⟨upto, from', hsplit, hunits⟩ := hstart r (by simp)
    obtain ⟨through, behind, hsplit', hunits'⟩ := hstop r (by simp)
    obtain ⟨gap, hgap, hafter⟩ := exists_append_of_units_le (htext.symm.trans hsplit)
      (by rw [hunits]; exact hbefore r (by simp))
    obtain ⟨old, hold, hfrom⟩ := exists_append_of_units_le (hsplit.symm.trans hsplit')
      (by rw [hunits, hunits']; exact r.start_le_stop)
    have hlater := List.pairwise_cons.mp hascending
    obtain ⟨patches, rest, hrest, hcuts⟩ := ih
      (fun s hs => hstart s (by simp [hs])) (fun s hs => hstop s (by simp [hs])) hlater.2
      through behind hsplit' (fun s hs => by rw [hunits']; exact (hlater.1 s hs).2)
    rw [hunits'] at hcuts
    refine ⟨⟨gap, old, r.text⟩ :: patches, rest, ?_, .cons ?_ ?_ rfl hcuts⟩
    · rw [hafter, hfrom, hrest, Patch.source, List.append_assoc]
    · rw [← hunits, hgap, units_append]
    · rw [← hunits, ← hunits', hold, units_append]

/-- Replacing the code units of the source at once gives the code units of
the target. -/
theorem replaceUnits_utf16 {position : Nat} {patches : List Patch}
    {replacements : List Replacement} (hcuts : Cuts position patches replacements)
    (rest : List Char) :
    replaceUnits position (utf16 (Patch.source rest patches)) replacements =
      utf16 (Patch.target rest patches) := by
  induction hcuts with
  | nil => rfl
  | @cons position patch patches r replacements hstart hstop htext tail ih =>
    have hgap : r.start - position = (utf16 patch.gap).length := by
      rw [length_utf16]
      omega
    have hold : r.stop - position = (utf16 patch.gap ++ utf16 patch.old).length := by
      rw [List.length_append, length_utf16, length_utf16]
      omega
    rw [replaceUnits, Patch.source, Patch.target, utf16_append, utf16_append]
    have htake : (utf16 patch.gap ++ utf16 patch.old ++
        utf16 (Patch.source rest patches)).take (r.start - position) = utf16 patch.gap := by
      rw [hgap, List.append_assoc, List.take_left]
    have hdrop : (utf16 patch.gap ++ utf16 patch.old ++
        utf16 (Patch.source rest patches)).drop (r.stop - position) =
          utf16 (Patch.source rest patches) := by
      rw [hold, List.drop_left]
    rw [htake, hdrop, ih, htext, utf16_append, utf16_append]

/-- The edits of the ranges are the edits of the patches. -/
theorem map_editOf_eq_edits {text before : List Char} {position : Nat} {patches : List Patch}
    {replacements : List Replacement} {rest : List Char}
    (hcuts : Cuts position patches replacements)
    (htext : text = before ++ Patch.source rest patches) (hposition : position = units before) :
    replacements.map (Problem.editOf (LineTable.ofChars text)) =
      Patch.edits (bytes before) patches := by
  induction hcuts generalizing before with
  | nil => rfl
  | @cons position patch patches r replacements hstart hstop hnew tail ih =>
    have hstartAt : (LineTable.ofChars text).offsetOfUnits r.start =
        bytes (before ++ patch.gap) := by
      have hsplit : text =
          (before ++ patch.gap) ++ (patch.old ++ Patch.source rest patches) := by
        rw [htext, Patch.source]
        simp only [List.append_assoc]
      rw [hsplit, hstart, hposition, ← units_append, LineTable.offsetOfUnits_units]
    have hsplit : text =
        (before ++ patch.gap ++ patch.old) ++ Patch.source rest patches := by
      rw [htext, Patch.source]
      simp only [List.append_assoc]
    have hstopUnits : r.stop = units (before ++ patch.gap ++ patch.old) := by
      simp only [units_append]
      omega
    have hstopAt : (LineTable.ofChars text).offsetOfUnits r.stop =
        bytes (before ++ patch.gap ++ patch.old) := by
      rw [hstopUnits, hsplit, LineTable.offsetOfUnits_units]
    have hlater := ih hsplit hstopUnits
    rw [List.map_cons, hlater, Patch.edits, Problem.editOf, hstartAt, hstopAt, hnew]
    simp only [Span.ofBounds, bytes_append]
    congr 3
    omega

/-! ## Edits keep the order of ranges -/

/-- Both ends of the range are boundaries. -/
def OnBoundaries (text : List Char) (r : Replacement) : Prop :=
  UnitBoundary text r.start ∧ UnitBoundary text r.stop

theorem start_editOf (text : List Char) (r : Replacement) :
    (Problem.editOf (LineTable.ofChars text) r).span.start = bytes (fitUnits r.start text) :=
  LineTable.offsetOfUnits_ofChars text r.start

theorem stop_editOf {text : List Char} {r : Replacement} (h : OnBoundaries text r) :
    (Problem.editOf (LineTable.ofChars text) r).span.stop = bytes (fitUnits r.stop text) := by
  obtain ⟨middle, -, hbytes⟩ := exists_between_boundaries h.1 h.2 r.start_le_stop
  have hstart := LineTable.offsetOfUnits_ofChars text r.start
  have hstop := LineTable.offsetOfUnits_ofChars text r.stop
  simp only [Problem.editOf, Span.ofBounds, Span.stop, hstart, hstop]
  omega

/-- Ranges between characters are ordered by their bytes as they are by
their code units. -/
theorem keepsOrder_editOf (text : List Char) :
    KeepsOrder (OnBoundaries text) (Problem.editOf (LineTable.ofChars text)) where
  start_le_iff a b ha hb := by
    have hlt := bytes_fitUnits_lt_iff hb.1 ha.1
    rw [start_editOf, start_editOf]
    omega
  stop_lt_iff a b ha hb := by
    rw [stop_editOf ha, start_editOf]
    exact bytes_fitUnits_lt_iff ha.2 hb.1

/-! ## The fixes of a list of findings -/

/-- The ranges that a finding wants to replace. -/
def ranges (finding : Finding) : List Replacement :=
  (finding.fix.map Fix.replacements).getD []

theorem edits_ofFinding (table : LineTable) (finding : Finding) :
    (Problem.ofFinding table finding).edits = (ranges finding).map (Problem.editOf table) := by
  unfold Problem.ofFinding ranges
  cases finding.fix <;> rfl

/-- A finding that can be fixed has a range to replace. -/
theorem ranges_ne_nil {finding : Finding} (h : finding.isFixable = true) :
    ranges finding ≠ [] := by
  obtain ⟨fix, hfix, heffect⟩ := Option.any_eq_true _ _ |>.mp h
  intro hnil
  simp only [ranges, hfix, Option.map_some, Option.getD_some] at hnil
  simp [Fix.hasEffect, hnil] at heffect

theorem ranges_placed {text : List Char} {finding : Finding}
    (hplaced : ∀ fix ∈ finding.fix, fix.Placed text) :
    (∀ r ∈ ranges finding, OnBoundaries text r) ∧
      (ranges finding).Pairwise Replacement.Before := by
  cases hfix : finding.fix with
  | none => simp [ranges, hfix]
  | some fix =>
    have hfits := hplaced fix hfix
    simp only [ranges, hfix, Option.map_some, Option.getD_some]
    refine ⟨fun r hr => ⟨hfits.start_boundary r hr, hfits.stop_boundary r hr⟩, ?_⟩
    have hchain : fix.replacements.IsChain Replacement.Before := hfits.ascending
    exact List.isChain_iff_pairwise.mp hchain

/-- The text after the batch, for fixes given by their ranges. -/
theorem utf16_applyChars_select {text : List Char} (fixes : List (List Replacement))
    (hne : ∀ fix ∈ fixes, fix ≠ []) (hboundary : ∀ fix ∈ fixes, ∀ r ∈ fix, OnBoundaries text r)
    (hascending : ∀ fix ∈ fixes, fix.Pairwise Replacement.Before) :
    utf16 (Edit.applyChars text
        (Batch.select (fixes.map (List.map (Problem.editOf (LineTable.ofChars text)))))) =
      replaceUnits 0 (utf16 text) (chosen fixes).flatten := by
  have hselect : Batch.select (fixes.map (List.map (Problem.editOf (LineTable.ofChars text)))) =
      (chosen fixes).flatten.map (Problem.editOf (LineTable.ofChars text)) := by
    rw [Batch.select, kept_map_eq (keepsOrder_editOf text) fixes hne hboundary, List.map_flatten]
  have hboundaryAll : ∀ r ∈ (chosen fixes).flatten, OnBoundaries text r := by
    intro r hr
    obtain ⟨fix, hfix, hmem⟩ := List.mem_flatten.mp hr
    exact hboundary fix (mem_of_mem_chosen hfix) r hmem
  have hascendingAll := pairwise_flatten_chosen fixes hascending
  obtain ⟨patches, rest, hsource, hcuts⟩ := exists_cuts (chosen fixes).flatten
    (fun r hr => (hboundaryAll r hr).1) (fun r hr => (hboundaryAll r hr).2) hascendingAll
    [] text rfl (fun r _ => Nat.zero_le _)
  have hedits := map_editOf_eq_edits hcuts
    (show text = [] ++ Patch.source rest patches from hsource) rfl
  -- the edits ascend because their ranges do
  have hedges : (Patch.edits 0 patches).Pairwise fun a b => a.span.start < b.span.start := by
    have hpairs : ((chosen fixes).flatten.map (Problem.editOf (LineTable.ofChars text))).Pairwise
        fun a b => a.span.start < b.span.start := by
      rw [List.pairwise_map]
      refine hascendingAll.imp_of_mem ?_
      intro r s hr hs hbefore
      rw [start_editOf, start_editOf]
      exact (bytes_fitUnits_lt_iff (hboundaryAll r hr).1 (hboundaryAll s hs).1).mpr hbefore.1
    rw [hedits] at hpairs
    exact hpairs
  have happly := Patch.applyChars_edits patches rest hedges
  have hunits := replaceUnits_utf16 hcuts rest
  rw [← hsource] at happly hunits
  rw [hselect, hedits]
  change utf16 (Edit.applyChars text (Patch.edits 0 patches)) = _
  rw [happly]
  exact hunits.symm

end Fix

/-- Fixing everything commutes with the meaning of the fixes in code units.
The batch picked by byte offsets holds the edits of the fixes picked by code
units, and the text after it is the text with the ranges of these fixes
replaced at once. -/
theorem utf16_fixAll (text : String) (findings : List Finding)
    (hplaced : ∀ finding ∈ findings, ∀ fix ∈ finding.fix, fix.Placed text.toList) :
    let table := LineTable.ofText text
    let problems := findings.map (Problem.ofFinding table)
    let edits := (problems.filter Problem.fixable).map Problem.edits
    let ranges := (findings.filter Finding.isFixable).map Fix.ranges
    Batch.kept edits = (Fix.chosen ranges).map (List.map (Problem.editOf table)) ∧
      utf16 (Edit.applyAll text (Batch.select edits)).toList =
        Fix.replaceUnits 0 (utf16 text.toList) (Fix.chosen ranges).flatten := by
  intro table problems edits ranges
  have hedits : edits = ranges.map (List.map (Problem.editOf table)) := by
    simp only [edits, ranges, problems, List.filter_map, List.map_map]
    refine List.map_congr_left ?_
    intro finding _
    exact Fix.edits_ofFinding table finding
  have hmem : ∀ fix ∈ ranges, ∃ finding ∈ findings, finding.isFixable = true ∧
      Fix.ranges finding = fix := by
    intro fix hfix
    obtain ⟨finding, hfinding, heq⟩ := List.mem_map.mp hfix
    obtain ⟨hin, hfixable⟩ := List.mem_filter.mp hfinding
    exact ⟨finding, hin, hfixable, heq⟩
  have hne : ∀ fix ∈ ranges, fix ≠ [] := by
    intro fix hfix
    obtain ⟨finding, _, hfixable, rfl⟩ := hmem fix hfix
    exact Fix.ranges_ne_nil hfixable
  have hfits : ∀ fix ∈ ranges, (∀ r ∈ fix, Fix.OnBoundaries text.toList r) ∧
      fix.Pairwise Replacement.Before := by
    intro fix hfix
    obtain ⟨finding, hin, _, rfl⟩ := hmem fix hfix
    exact Fix.ranges_placed (hplaced finding hin)
  constructor
  · rw [hedits]
    exact Fix.kept_map_eq (Fix.keepsOrder_editOf text.toList) ranges hne
      fun fix hfix => (hfits fix hfix).1
  · rw [hedits, Edit.applyAll, String.toList_ofList]
    exact Fix.utf16_applyChars_select ranges hne (fun fix hfix => (hfits fix hfix).1)
      fun fix hfix => (hfits fix hfix).2

/-- Four fixes of a text with a surrogate pair and a line break.  The first
one inserts in front of all others, and the third one touches the second. -/
def touchingFindings : List Finding :=
  [{ message := "tag", fix := some ⟨[.ofBounds 0 0 "// "]⟩ },
    { message := "face", fix := some ⟨[.ofBounds 1 3 "x"]⟩ },
    { message := "break", fix := some ⟨[.ofBounds 3 5 "\n", .ofBounds 5 6 "c"]⟩ },
    { message := "last", fix := some ⟨[.ofBounds 5 6 "ö"]⟩ }]

/-- Every one of these fixes inserts or deletes something, and all but the
third one are taken. -/
theorem utf16_fixAll_touching :
    let table := LineTable.ofText "é😀\r\nb"
    let edits := touchingFindings.map fun finding => (Problem.ofFinding table finding).edits
    (∀ finding ∈ touchingFindings, ∀ fix ∈ finding.fix, fix.Placed "é😀\r\nb".toList) ∧
      (∀ finding ∈ touchingFindings, ∃ fix ∈ finding.fix, ∃ part ∈ fix.replacements,
        part.start < part.stop ∨ part.text ≠ "") ∧
      Batch.kept edits = [[⟨⟨0, 0⟩, "// "⟩], [⟨⟨2, 4⟩, "x"⟩], [⟨⟨8, 1⟩, "ö"⟩]] ∧
      utf16 (Edit.applyAll "é😀\r\nb" (Batch.select edits)).toList =
        utf16 "// éx\r\nö".toList := by
  intro table edits
  have hplaced : ∀ finding ∈ touchingFindings, ∀ fix ∈ finding.fix,
      fix.Placed "é😀\r\nb".toList := by decide
  obtain ⟨hkept, happlied⟩ := utf16_fixAll "é😀\r\nb" touchingFindings hplaced
  have hedits : ((touchingFindings.map (Problem.ofFinding table)).filter Problem.fixable).map
      Problem.edits = edits := by decide
  have hchosen : Fix.chosen ((touchingFindings.filter Finding.isFixable).map Fix.ranges) =
      [[.ofBounds 0 0 "// "], [.ofBounds 1 3 "x"], [.ofBounds 5 6 "ö"]] := by
    rw [Fix.chosen, Fix.byFirstStart, List.mergeSort_of_pairwise (by decide)]
    decide
  rw [hedits, hchosen] at hkept happlied
  exact ⟨hplaced, by decide, hkept, happlied⟩

end LintLayer
