import LintLayer.Proofs.Batch.Selection

/-!
# Fixes that list their edits in any order

The scan compares the edit that a fix lists first with the edit that was taken
last.  It never sees the edits between them.  A fix is framed when this is
enough: the edit listed first is the leftmost one, and the edit listed last the
rightmost one; the others may come in any order.

`keptIn_apart_of_framed` says that the edits of different fixes in a batch of
framed fixes are apart, and that framed fixes are all for which this can be
said: a fix that is not framed is taken together with an insertion at one of
its own edits.  The ends of the edits are numbers of 64 bits throughout.
-/

namespace LintLayer.Batch

/-- `b` starts inside `a`, or where `a` starts or ends. -/
def Meets (a b : Edit) : Prop :=
  a.span.start ≤ b.span.start ∧ b.span.start ≤ a.span.stop

instance (a b : Edit) : Decidable (Meets a b) :=
  inferInstanceAs (Decidable (_ ∧ _))

/-- The leftmost edit is listed first, and the rightmost one last. -/
structure Framed (fix : List Edit) : Prop where
  first : ∀ edit ∈ fix, firstStart fix ≤ edit.span.start
  last : ∀ edit ∈ fix, edit.span.stop ≤ lastStop fix

instance (fix : List Edit) : Decidable (Framed fix) :=
  decidable_of_iff
    ((∀ edit ∈ fix, firstStart fix ≤ edit.span.start) ∧ ∀ edit ∈ fix, edit.span.stop ≤ lastStop fix)
    ⟨fun h => ⟨h.1, h.2⟩, fun h => ⟨h.first, h.last⟩⟩

theorem Framed.firstStart_le_lastStop {fix : List Edit} (h : Framed fix) (hne : fix ≠ []) :
    firstStart fix ≤ lastStop fix := by
  obtain ⟨edit, hedit⟩ := List.exists_mem_of_ne_nil fix hne
  have hfirst := h.first edit hedit
  have hlast := h.last edit hedit
  have hends := edit.span.start_le_stop
  omega

/-! ## What the scan compares -/

theorem startsAfter_iff {last : Option Edit} {fix : List Edit} :
    startsAfter last fix = true ↔ ∀ edit ∈ last, edit.span.stop < firstStart fix := by
  cases last <;> simp [startsAfter]

/-- Whatever the order inside the fixes, each one that is taken starts, with
the edit it lists first, behind the edit that the one before lists last. -/
theorem isChain_scan (last : Option Edit) {fixes : List (List Edit)}
    (hne : ∀ fix ∈ fixes, fix ≠ []) :
    ((scan last fixes).IsChain fun f g => lastStop f < firstStart g) ∧
      ∀ first ∈ (scan last fixes).head?, ∀ edit ∈ last, edit.span.stop < firstStart first := by
  induction fixes generalizing last with
  | nil => simp [scan]
  | cons fix fixes ih =>
    have hrest : ∀ other ∈ fixes, other ≠ [] := fun other h => hne other (by simp [h])
    rw [scan]
    split
    · rename_i hstarts
      obtain ⟨newest, hnewest⟩ : ∃ newest, fix.getLast? = some newest :=
        Option.isSome_iff_exists.mp (by simpa using hne fix (by simp))
      obtain ⟨hchain, hhead⟩ := ih (fix.getLast?.or last) hrest
      refine ⟨List.isChain_cons.mpr ⟨fun next hnext => ?_, hchain⟩, ?_⟩
      · rw [lastStop_of_getLast? hnewest]
        exact hhead next hnext newest (by simp [hnewest])
      · intro first hfirst
        obtain rfl : fix = first := by simpa using hfirst
        exact startsAfter_iff.mp hstarts
    · exact ih last hrest

/-- A chain of framed fixes is one after the other as a whole. -/
theorem pairwise_of_framed {fixes : List (List Edit)}
    (hchain : fixes.IsChain fun f g => lastStop f < firstStart g)
    (hframed : ∀ fix ∈ fixes, fix ≠ [] ∧ Framed fix) :
    fixes.Pairwise fun f g => lastStop f < firstStart g := by
  induction fixes with
  | nil => exact List.Pairwise.nil
  | cons fix fixes ih =>
    obtain ⟨hnext, hchain⟩ := List.isChain_cons.mp hchain
    have hlater := ih hchain fun other h => hframed other (by simp [h])
    refine List.pairwise_cons.mpr ⟨fun other hother => ?_, hlater⟩
    cases fixes with
    | nil => simp at hother
    | cons next fixes =>
      have hbehind := hnext next rfl
      rcases List.mem_cons.mp hother with rfl | hother
      · exact hbehind
      · have hends := (hframed next (by simp)).2.firstStart_le_lastStop (hframed next (by simp)).1
        have hbeyond := (List.pairwise_cons.mp hlater).1 other hother
        omega

/-! ## Two fixes -/

/-- Of two fixes both are taken when the second starts behind the last edit of
the first. -/
theorem scan_pair {a b : List Edit} (ha : a ≠ []) (hlt : lastStop a < firstStart b) :
    scan none [a, b] = [a, b] := by
  obtain ⟨newest, hnewest⟩ : ∃ newest, a.getLast? = some newest :=
    Option.isSome_iff_exists.mp (by simpa using ha)
  rw [lastStop_of_getLast? hnewest] at hlt
  simp [scan, startsAfter, hnewest, hlt]

theorem kept_pair_of_le {a b : List Edit} (ha : a ≠ []) (hb : b ≠ [])
    (hle : firstStart a ≤ firstStart b) (hlt : lastStop a < firstStart b) :
    kept [a, b] = [a, b] := by
  rw [kept, inOrder_pair ha hb hle, scan_pair ha hlt]

theorem kept_pair_of_lt {a b : List Edit} (ha : a ≠ []) (hb : b ≠ [])
    (hlt : firstStart b < firstStart a) (hlast : lastStop b < firstStart a) :
    kept [a, b] = [b, a] := by
  have horder : inOrder [a, b] = [b, a] := by
    rw [inOrder, List.filter_eq_self.mpr (by simp [ha, hb])]
    simp [List.mergeSort, Nat.not_le.mpr hlt]
  rw [kept, horder, scan_pair hb hlast]

/-- A fix that is not framed and an insertion at one of its edits are taken
together.  The insertion is where the scan does not look: at the start of an
edit in front of the one listed first, or at the end of an edit behind the one
listed last. -/
theorem exists_insertion_of_not_framed {fix : List Edit} (hne : fix ≠ []) (h : ¬ Framed fix) :
    ∃ insertion : Edit, insertion.span.length = 0 ∧
      (kept [fix, [insertion]]).Perm [fix, [insertion]] ∧ ∃ edit ∈ fix, Meets edit insertion := by
  have hsingle : ∀ offset, firstStart [⟨Span.emptyAt offset, ""⟩] = offset := fun _ => rfl
  have hsingle' : ∀ offset, lastStop [⟨Span.emptyAt offset, ""⟩] = offset := fun _ => rfl
  by_cases hfirst : ∀ edit ∈ fix, firstStart fix ≤ edit.span.start
  · obtain ⟨edit, hedit, hstop⟩ : ∃ edit ∈ fix, lastStop fix < edit.span.stop := by
      by_contra hlast
      exact h ⟨hfirst, fun edit hedit => Nat.le_of_not_lt fun hlt => hlast ⟨edit, hedit, hlt⟩⟩
    have hends := edit.span.start_le_stop
    refine ⟨⟨Span.emptyAt edit.span.stop, ""⟩, rfl, ?_, edit, hedit, hends, Nat.le_refl _⟩
    have hle := hfirst edit hedit
    rw [kept_pair_of_le hne (by simp) (by rw [hsingle]; omega) (by rwa [hsingle])]
  · obtain ⟨edit, hedit, hstart⟩ : ∃ edit ∈ fix, edit.span.start < firstStart fix := by
      by_contra hnone
      exact hfirst fun edit hedit => Nat.le_of_not_lt fun hlt => hnone ⟨edit, hedit, hlt⟩
    refine ⟨⟨Span.emptyAt edit.span.start, ""⟩, rfl, ?_, edit, hedit, Nat.le_refl _,
      edit.span.start_le_stop⟩
    rw [kept_pair_of_lt hne (by simp) (by rwa [hsingle]) (by rwa [hsingle'])]
    exact List.Perm.swap _ _ _

/-! ## The batch -/

/-- What the batch promises about fixes that list their edits in any order, if
the ends of the edits are numbers of 64 bits.  Each fix starts, with the edit
it lists first, behind the edit that the fix before it lists last.  If the
fixes in the batch are framed, no edit of one meets an edit of another.  For a
fix that is not framed this fails: some insertion meets one of its edits, and
the batch of the two has both. -/
theorem keptIn_apart_of_framed (arithmetic : Arithmetic) (fixes : List (List Edit))
    (hends : ∀ fix ∈ fixes, ∀ edit ∈ fix, edit.span.stop < Nat.pow 2 64) :
    ∃ batch, keptIn arithmetic fixes = some batch ∧
      (batch.IsChain fun f g => lastStop f < firstStart g) ∧
      ((∀ fix ∈ batch, Framed fix) →
        batch.Pairwise fun f g => ∀ a ∈ f, ∀ b ∈ g, ¬ Meets a b ∧ ¬ Meets b a) ∧
      ∀ fix : List Edit, fix ≠ [] → (∀ edit ∈ fix, edit.span.stop < Nat.pow 2 64) →
        ¬ Framed fix →
          ∃ insertion : Edit, insertion.span.length = 0 ∧ insertion.span.start < Nat.pow 2 64 ∧
            (∃ both, keptIn arithmetic [fix, [insertion]] = some both ∧
              both.Perm [fix, [insertion]]) ∧
            ∃ edit ∈ fix, Meets edit insertion := by
  have hne : ∀ fix ∈ inOrder fixes, fix ≠ [] := fun fix h => (mem_inOrder.mp h).2
  obtain ⟨hchain, -⟩ := isChain_scan none hne
  refine ⟨kept fixes, keptIn_of_lt hends, hchain, fun hframed => ?_,
    fun fix hfix hends hframed => ?_⟩
  · have hkept : ∀ fix ∈ kept fixes, fix ≠ [] ∧ Framed fix := fun fix hfix =>
      ⟨(mem_of_mem_kept hfix).2, hframed fix hfix⟩
    refine (pairwise_of_framed hchain hkept).imp_of_mem ?_
    intro f g hf hg hbehind a ha b hb
    have hstop := (hframed f hf).last a ha
    have hstart := (hframed g hg).first b hb
    have hends := a.span.start_le_stop
    exact ⟨fun h => by have := h.2; omega, fun h => by have := h.1; omega⟩
  · obtain ⟨insertion, hlength, hboth, edit, hedit, hmeets⟩ :=
      exists_insertion_of_not_framed hfix hframed
    have hstart : insertion.span.start < Nat.pow 2 64 :=
      Nat.lt_of_le_of_lt hmeets.2 (hends edit hedit)
    have hpair : ∀ other ∈ [fix, [insertion]], ∀ one ∈ other, one.span.stop < Nat.pow 2 64 := by
      intro other hother one hone
      rcases List.mem_pair.mp hother with rfl | rfl
      · exact hends one hone
      · rwa [List.mem_singleton.mp hone, Span.stop, hlength]
    exact ⟨insertion, hlength, hstart, ⟨_, keptIn_of_lt hpair, hboth⟩, edit, hedit, hmeets⟩

/-- A fix whose inner edits are out of order and the fix behind it; and a fix
that lists its edits from the back. -/
theorem keptIn_apart_of_framed_shuffled :
    let shuffled : List Edit := [⟨⟨0, 1⟩, "a"⟩, ⟨⟨6, 1⟩, "b"⟩, ⟨⟨3, 1⟩, "c"⟩, ⟨⟨9, 1⟩, "d"⟩]
    let fixes : List (List Edit) := [shuffled, [⟨⟨11, 2⟩, "e"⟩]]
    let reversed : List Edit := [⟨⟨4, 3⟩, "x"⟩, ⟨⟨0, 3⟩, "y"⟩]
    (∀ fix ∈ fixes, ∀ edit ∈ fix, edit.span.stop < Nat.pow 2 64) ∧
      keptIn .wrapping fixes = some fixes ∧ (∀ fix ∈ fixes, Framed fix) ∧
      (fixes.Pairwise fun f g => ∀ a ∈ f, ∀ b ∈ g, ¬ Meets a b ∧ ¬ Meets b a) ∧
      ¬ Framed reversed ∧
      ∃ insertion : Edit,
        (∃ both, keptIn .wrapping [reversed, [insertion]] = some both ∧
          both.Perm [reversed, [insertion]]) ∧
        ∃ edit ∈ reversed, Meets edit insertion := by
  intro shuffled fixes reversed
  have hends : ∀ fix ∈ fixes, ∀ edit ∈ fix, edit.span.stop < Nat.pow 2 64 := by decide
  have hkept : keptIn .wrapping fixes = some fixes := by
    rw [keptIn_of_lt hends, kept_pair_of_le (List.cons_ne_nil _ _) (List.cons_ne_nil _ _)
      (by decide) (by decide)]
  have hframed : ∀ fix ∈ fixes, Framed fix := by decide
  have hreversed : ¬ Framed reversed := by decide
  obtain ⟨batch, hbatch, -, hapart, hcrossed⟩ := keptIn_apart_of_framed .wrapping fixes hends
  obtain rfl : fixes = batch := Option.some.inj (hkept.symm.trans hbatch)
  obtain ⟨insertion, -, -, hboth, hmeets⟩ :=
    hcrossed reversed (List.cons_ne_nil _ _) (by decide) hreversed
  exact ⟨hends, hkept, hframed, hapart hframed, hreversed, insertion, hboth, hmeets⟩

/-- Two fixes, each of edits that do not overlap.  The first lists its edits
from the back, so the scan does not see that the second starts inside it, and
the batch has both. -/
theorem reversed_fix_is_crossed :
    let crossed : Edit := ⟨⟨4, 3⟩, "x"⟩
    let crossing : Edit := ⟨⟨5, 4⟩, "y ="⟩
    let fixes : List (List Edit) := [[crossed, ⟨⟨0, 3⟩, "const"⟩], [crossing]]
    (∀ fix ∈ fixes, fix.Pairwise fun a b => a.span.Disjoint b.span) ∧
      selectIn .checked fixes = some [crossed, ⟨⟨0, 3⟩, "const"⟩, crossing] ∧
      selectIn .wrapping fixes = some [crossed, ⟨⟨0, 3⟩, "const"⟩, crossing] ∧
      Meets crossed crossing := by
  intro crossed crossing fixes
  have hselect : ∀ arithmetic,
      selectIn arithmetic fixes = some [crossed, ⟨⟨0, 3⟩, "const"⟩, crossing] := by
    intro arithmetic
    rw [selectIn_of_lt (by decide), select, kept_pair_of_le (List.cons_ne_nil _ _)
      (List.cons_ne_nil _ _) (by decide) (by decide)]
    rfl
  exact ⟨by decide, hselect .checked, hselect .wrapping, by decide⟩

end LintLayer.Batch
