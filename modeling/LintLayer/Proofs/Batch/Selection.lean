import LintLayer.Proofs.Batch.Overflow
import LintLayer.Proofs.Sort.Stability
import Mathlib.Data.List.Chain
import Mathlib.Data.List.Induction

/-!
# What a batch takes

The scan looks only at the last edit taken so far.  Here its choices are
compared with all fixes taken before, for fixes that list their edits in
ascending order.

* `Decision` is a fix together with what was decided about it, and `decisions`
  writes the scan as a list of them.
* `taken_decisions_iff` is the step: the end of the last edit taken stands for
  the ends of all fixes taken before it, since each of them starts behind the
  one before.
* `selectIn_exact` says which fixes the program's batch consists of, without
  the scan, and what becomes of a fix whose end needs more than 64 bits.
-/

namespace LintLayer.Batch

/-! ## Fixes in ascending order -/

/-- Each edit ends at or before the start of the next one. -/
def Ascending (fix : List Edit) : Prop :=
  fix.IsChain fun a b => a.span.stop ≤ b.span.start

instance (fix : List Edit) : Decidable (Ascending fix) :=
  inferInstanceAs (Decidable (fix.IsChain _))

/-- The end of the last edit. -/
def lastStop (fix : List Edit) : Nat :=
  (fix.getLast?.map fun edit => edit.span.stop).getD 0

theorem lastStop_of_getLast? {fix : List Edit} {last : Edit} (h : fix.getLast? = some last) :
    lastStop fix = last.span.stop := by
  rw [lastStop, h, Option.map_some, Option.getD_some]

theorem Ascending.pairwise {fix : List Edit} (h : Ascending fix) :
    fix.Pairwise fun a b => a.span.stop ≤ b.span.start := by
  have htrans : ∀ {a b c : Edit}, a.span.stop ≤ b.span.start → b.span.stop ≤ c.span.start →
      a.span.stop ≤ c.span.start := by
    intro a b c hab hbc
    simp only [Span.stop] at *
    omega
  have : Trans (fun a b : Edit => a.span.stop ≤ b.span.start)
      (fun a b : Edit => a.span.stop ≤ b.span.start)
      (fun a b : Edit => a.span.stop ≤ b.span.start) := ⟨htrans⟩
  exact List.isChain_iff_pairwise.mp h

/-- No edit starts before the first one. -/
theorem Ascending.firstStart_le {fix : List Edit} (h : Ascending fix) {edit : Edit}
    (hedit : edit ∈ fix) : firstStart fix ≤ edit.span.start := by
  cases fix with
  | nil => simp at hedit
  | cons first more =>
    change first.span.start ≤ edit.span.start
    rcases List.mem_cons.mp hedit with rfl | hmore
    · exact Nat.le_refl _
    · have hbefore := (List.pairwise_cons.mp h.pairwise).1 edit hmore
      rw [Span.stop] at hbefore
      omega

/-- No edit ends behind the last one. -/
theorem Ascending.stop_le_lastStop {fix : List Edit} (h : Ascending fix) {edit : Edit}
    (hedit : edit ∈ fix) : edit.span.stop ≤ lastStop fix := by
  obtain ⟨last, hlast⟩ : ∃ last, fix.getLast? = some last :=
    Option.isSome_iff_exists.mp (by simpa using List.ne_nil_of_mem hedit)
  rw [lastStop_of_getLast? hlast]
  obtain ⟨earlier, rfl⟩ := List.getLast?_eq_some_iff.mp hlast
  rcases List.mem_append.mp hedit with hearlier | hedit
  · have hbefore := (List.pairwise_append.mp h.pairwise).2.2 edit hearlier last (by simp)
    have hends : last.span.start ≤ last.span.stop := Nat.le_add_right _ _
    omega
  · rw [List.mem_singleton.mp hedit]

theorem Ascending.firstStart_le_lastStop {fix : List Edit} (h : Ascending fix) (hne : fix ≠ []) :
    firstStart fix ≤ lastStop fix := by
  obtain ⟨edit, hedit⟩ := List.exists_mem_of_ne_nil fix hne
  have hfirst := h.firstStart_le hedit
  have hlast := h.stop_le_lastStop hedit
  have hends : edit.span.start ≤ edit.span.stop := Nat.le_add_right _ _
  omega

/-! ## The order -/

/-- `ordered` lists the fixes by the start of their first edit, and fixes with
the same start in the order in which they are given. -/
structure StablyOrdered (fixes ordered : List (List Edit)) : Prop where
  perm : ordered.Perm fixes
  sorted : ordered.Pairwise fun a b => firstStart a ≤ firstStart b
  stable : ∀ start, (ordered.filter fun fix => firstStart fix = start) =
    fixes.filter fun fix => firstStart fix = start

theorem stablyOrdered_inOrder (fixes : List (List Edit)) :
    StablyOrdered (fixes.filter fun fix => !fix.isEmpty) (inOrder fixes) := by
  have htrans : ∀ a b c : List Edit, decide (firstStart a ≤ firstStart b) = true →
      decide (firstStart b ≤ firstStart c) = true →
        decide (firstStart a ≤ firstStart c) = true := by
    intro a b c hab hbc
    simp only [decide_eq_true_eq] at *
    omega
  have htotal : ∀ a b : List Edit,
      (decide (firstStart a ≤ firstStart b) || decide (firstStart b ≤ firstStart a)) = true := by
    intro a b
    simp only [Bool.or_eq_true, decide_eq_true_eq]
    omega
  refine ⟨List.mergeSort_perm _ _, ?_, fun start => ?_⟩
  · refine (List.pairwise_mergeSort htrans htotal _).imp fun hle => ?_
    exact of_decide_eq_true hle
  · refine Sort.filter_mergeSort htrans htotal (fun a b ha hb => ?_) _
    simp only [decide_eq_true_eq] at *
    omega

/-! ## Decisions -/

/-- A fix, and whether the batch takes it. -/
structure Decision where
  fix : List Edit
  taken : Bool
  deriving DecidableEq, Repr

/-- What the scan decides about each fix. -/
def decisions (last : Option Edit) : List (List Edit) → List Decision
  | [] => []
  | fix :: fixes =>
    let taken := startsAfter last fix
    ⟨fix, taken⟩ :: decisions (if taken then fix.getLast?.or last else last) fixes

/-- The fixes that are taken. -/
def takenOf (decided : List Decision) : List (List Edit) :=
  (decided.filter Decision.taken).map Decision.fix

theorem map_fix_decisions (last : Option Edit) (fixes : List (List Edit)) :
    (decisions last fixes).map Decision.fix = fixes := by
  induction fixes generalizing last with
  | nil => rfl
  | cons fix fixes ih => rw [decisions, List.map_cons, ih]

theorem takenOf_decisions (last : Option Edit) (fixes : List (List Edit)) :
    takenOf (decisions last fixes) = scan last fixes := by
  induction fixes generalizing last with
  | nil => rfl
  | cons fix fixes ih =>
    rw [decisions, scan]
    cases hstarts : startsAfter last fix with
    | true => exact congrArg (fix :: ·) (ih _)
    | false => exact ih _

/-- The last edit taken, if any, ends at or behind the first start of the
fix. -/
def Reaches (last : Option Edit) (fix : List Edit) : Prop :=
  ∃ edit ∈ last, firstStart fix ≤ edit.span.stop

theorem startsAfter_eq_false_iff {last : Option Edit} {fix : List Edit} :
    startsAfter last fix = false ↔ Reaches last fix := by
  cases last with
  | none => simp [startsAfter, Reaches]
  | some edit => simp [startsAfter, Reaches]

/-- Once a fix is taken, its last edit reaches every fix that the last edit
before it reached. -/
theorem reaches_getLast_iff {last : Option Edit} {fix : List Edit} (hascending : Ascending fix)
    (hne : fix ≠ []) (hstarts : startsAfter last fix = true) (later : List Edit) :
    Reaches (fix.getLast?.or last) later ↔
      Reaches last later ∨ firstStart later ≤ lastStop fix := by
  obtain ⟨newest, hnewest⟩ : ∃ newest, fix.getLast? = some newest :=
    Option.isSome_iff_exists.mp (by simpa using hne)
  have hreach : Reaches (fix.getLast?.or last) later ↔ firstStart later ≤ lastStop fix := by
    rw [hnewest, lastStop_of_getLast? hnewest]
    simp [Reaches]
  rw [hreach]
  refine ⟨Or.inr, ?_⟩
  rintro (⟨edit, rfl, hedit⟩ | hstop)
  · have hbehind : edit.span.stop < firstStart fix := of_decide_eq_true hstarts
    have hends := hascending.firstStart_le_lastStop hne
    omega
  · exact hstop

/-- A fix is left out exactly if the edit that was last at the start, or a fix
that was taken since, reaches it. -/
theorem taken_decisions_iff {fixes : List (List Edit)} {last : Option Edit}
    (hne : ∀ fix ∈ fixes, fix ≠ []) (hascending : ∀ fix ∈ fixes, Ascending fix)
    {before after : List Decision} {decision : Decision}
    (hsplit : decisions last fixes = before ++ decision :: after) :
    decision.taken = false ↔
      Reaches last decision.fix ∨
        ∃ earlier ∈ before, earlier.taken = true ∧
          firstStart decision.fix ≤ lastStop earlier.fix := by
  induction fixes generalizing last before with
  | nil => simp [decisions] at hsplit
  | cons fix fixes ih =>
    rw [decisions] at hsplit
    cases before with
    | nil =>
      rw [List.nil_append, List.cons.injEq] at hsplit
      rw [← hsplit.1]
      simp [startsAfter_eq_false_iff]
    | cons first before =>
      rw [List.cons_append, List.cons.injEq] at hsplit
      obtain ⟨rfl, hsplit⟩ := hsplit
      have hlater := ih (fun other h => hne other (by simp [h]))
        (fun other h => hascending other (by simp [h])) hsplit
      rw [hlater]
      cases hstarts : startsAfter last fix with
      | true =>
        rw [if_pos rfl,
          reaches_getLast_iff (hascending fix (by simp)) (hne fix (by simp)) hstarts]
        simp [or_assoc]
      | false => simp

theorem pairwise_of_split {α : Type} {R : α → α → Prop} {items : List α}
    (h : ∀ before item after, items = before ++ item :: after →
      ∀ earlier ∈ before, R earlier item) :
    items.Pairwise R := by
  induction items using List.reverseRecOn with
  | nil => exact List.Pairwise.nil
  | append_singleton items last ih =>
    refine List.pairwise_append.mpr ⟨ih fun before item after hsplit => ?_,
      List.pairwise_singleton _ _, fun earlier hearlier item hitem => ?_⟩
    · exact h before item (after ++ [last]) (by simp [hsplit])
    · rw [List.mem_singleton.mp hitem]
      exact h items last [] rfl earlier hearlier

/-! ## The batch -/

/-- The extents of two fixes, each from its first start to its last end, meet
or touch. -/
def Touches (a b : List Edit) : Prop :=
  firstStart a ≤ lastStop b ∧ firstStart b ≤ lastStop a

instance (a b : List Edit) : Decidable (Touches a b) :=
  inferInstanceAs (Decidable (_ ∧ _))

/-- Which fixes a batch consists of, for fixes whose edits ascend and end at
numbers of 64 bits.  About each fix that edits anything, in the order of the
first edits, there is a decision, and the batch holds the whole fixes that were
taken, in this order.  The edits of two of them are apart.  A fix is left out
exactly if a fix taken before it ends at or behind its start; so the first one
is always taken, and a fix that was left out touches one that was taken.

An edit whose end needs more than 64 bits breaks this, whatever it is: with any
edit that starts behind its start, and so touches it, the program stops if it
checks its sums, and takes the two together if it does not. -/
theorem selectIn_exact (arithmetic : Arithmetic) (fixes : List (List Edit))
    (hfixes : ∀ fix ∈ fixes, Ascending fix) :
    ((∀ fix ∈ fixes, ∀ edit ∈ fix, edit.span.stop < Nat.pow 2 64) →
      ∃ decided : List Decision,
        StablyOrdered (fixes.filter fun fix => !fix.isEmpty) (decided.map Decision.fix) ∧
        selectIn arithmetic fixes = some (takenOf decided).flatten ∧
        (decided.Pairwise fun earlier later => earlier.taken = true → later.taken = true →
          ∀ a ∈ earlier.fix, ∀ b ∈ later.fix, a.span.stop < b.span.start) ∧
        (∀ before decision after, decided = before ++ decision :: after →
          (decision.taken = false ↔ ∃ earlier ∈ before, earlier.taken = true ∧
            firstStart decision.fix ≤ lastStop earlier.fix)) ∧
        (∀ first ∈ decided.head?, first.taken = true) ∧
        ∀ decision ∈ decided, decision.taken = false →
          ∃ other ∈ decided, other.taken = true ∧ Touches decision.fix other.fix) ∧
    ∀ far near : Edit, far.span.IsWords → near.span.IsWords → Nat.pow 2 64 ≤ far.span.stop →
      far.span.start ≤ near.span.start →
        near.span.start ≤ far.span.stop ∧ selectIn .checked [[far], [near]] = none ∧
          selectIn .wrapping [[far], [near]] = some [far, near] := by
  refine ⟨fun hends => ?_, fun far near hfar hnear hover hle =>
    ⟨Nat.le_trans (Nat.le_of_lt hnear.start_lt) hover, selectIn_checked_pair hover hle,
      selectIn_wrapping_pair hfar hover hle⟩⟩
  have hordered := stablyOrdered_inOrder fixes
  have hmem : ∀ fix ∈ inOrder fixes, fix ≠ [] ∧ Ascending fix := by
    intro fix hfix
    obtain ⟨hgiven, hne⟩ := List.mem_filter.mp (hordered.perm.mem_iff.mp hfix)
    exact ⟨by simpa using hne, hfixes fix hgiven⟩
  set decided := decisions none (inOrder fixes) with hdecided
  have hmap : decided.map Decision.fix = inOrder fixes := map_fix_decisions _ _
  have hdecision : ∀ decision ∈ decided, decision.fix ≠ [] ∧ Ascending decision.fix := by
    intro decision hin
    exact hmem _ (hmap ▸ List.mem_map_of_mem hin)
  have hdropped : ∀ before decision after, decided = before ++ decision :: after →
      (decision.taken = false ↔ ∃ earlier ∈ before, earlier.taken = true ∧
        firstStart decision.fix ≤ lastStop earlier.fix) := by
    intro before decision after hsplit
    rw [taken_decisions_iff (fun fix h => (hmem fix h).1) (fun fix h => (hmem fix h).2) hsplit]
    simp [Reaches]
  refine ⟨decided, hmap ▸ hordered, ?_, ?_, hdropped, ?_, ?_⟩
  · rw [selectIn_of_lt hends, hdecided, takenOf_decisions, select, kept]
  · refine pairwise_of_split fun before later after hsplit earlier hearlier htaken htaken' => ?_
    have hbehind : lastStop earlier.fix < firstStart later.fix := by
      by_contra hreach
      have hdrop := (hdropped before later after hsplit).mpr
        ⟨earlier, hearlier, htaken, Nat.le_of_not_lt hreach⟩
      rw [htaken'] at hdrop
      cases hdrop
    intro a ha b hb
    have hstop := (hdecision earlier (by simp [hsplit, hearlier])).2.stop_le_lastStop ha
    have hstart := (hdecision later (by simp [hsplit])).2.firstStart_le hb
    omega
  · intro first hfirst
    obtain ⟨rest, hcons⟩ := List.head?_eq_some_iff.mp hfirst
    have hnone := hdropped [] first rest hcons
    simpa using hnone
  · intro decision hin hdrop
    obtain ⟨before, after, hsplit⟩ := List.append_of_mem hin
    obtain ⟨other, hother, htaken, hreach⟩ := (hdropped before decision after hsplit).mp hdrop
    have hsorted : firstStart other.fix ≤ firstStart decision.fix := by
      have hpairwise := hordered.sorted
      rw [← hmap, hsplit, List.map_append, List.pairwise_append] at hpairwise
      exact hpairwise.2.2 _ (List.mem_map_of_mem hother) _ (by simp)
    have hends := (hdecision decision hin).2.firstStart_le_lastStop (hdecision decision hin).1
    exact ⟨other, by simp [hsplit, hother], htaken, hreach, by omega⟩

/-- Of two fixes that start together the first one is taken; an insertion
right behind its last edit touches it, and the fix after that is apart. -/
theorem selectIn_exact_tie :
    let first : List Edit := [⟨⟨0, 2⟩, "a"⟩, ⟨⟨3, 1⟩, "b"⟩]
    let fixes := [[⟨⟨5, 1⟩, "c"⟩], first, [], [⟨⟨4, 0⟩, "d"⟩], [⟨⟨0, 1⟩, "e"⟩]]
    (∀ fix ∈ fixes, Ascending fix) ∧
      (∀ fix ∈ fixes, ∀ edit ∈ fix, edit.span.stop < Nat.pow 2 64) ∧
      selectIn .wrapping fixes = some (first ++ [⟨⟨5, 1⟩, "c"⟩]) ∧
      ∃ decided : List Decision,
        StablyOrdered (fixes.filter fun fix => !fix.isEmpty) (decided.map Decision.fix) ∧
        selectIn .wrapping fixes = some (takenOf decided).flatten ∧
        ∀ first ∈ decided.head?, first.taken = true := by
  intro first fixes
  have hfixes : ∀ fix ∈ fixes, Ascending fix := by decide
  have hends : ∀ fix ∈ fixes, ∀ edit ∈ fix, edit.span.stop < Nat.pow 2 64 := by decide
  have hbatch : select fixes = first ++ [⟨⟨5, 1⟩, "c"⟩] := by
    simp [select, kept, inOrder, fixes, first, List.mergeSort, firstStart, scan, startsAfter,
      Span.stop]
  obtain ⟨decided, hordered, hselect, _, _, hfirst, _⟩ :=
    (selectIn_exact .wrapping fixes hfixes).1 hends
  exact ⟨hfixes, hends, by rw [selectIn_of_lt hends, hbatch], decided, hordered, hselect, hfirst⟩

/-- A fix of two edits, of which the second ends where 64 bits end, and an
insertion where the first one ends.  It touches both.  What 64 bits hold of the
last end is the offset 4, so a program that does not check its sums takes the
insertion, and then has no range from 5 to 4 to replace; one that checks them
stops at once. -/
theorem far_fix_is_touched :
    let fix : List Edit := [⟨⟨0, 5⟩, "a"⟩, ⟨⟨5, 18446744073709551615⟩, "b"⟩]
    let insertion : Edit := ⟨⟨5, 0⟩, "c"⟩
    Ascending fix ∧ Touches fix [insertion] ∧
      selectIn .checked [fix, [insertion]] = none ∧
      selectIn .wrapping [fix, [insertion]] = some (fix ++ [insertion]) ∧
      Edit.applyIn .wrapping "abcdefgh" (fix ++ [insertion]) = none := by
  intro fix insertion
  have horder : inOrder [fix, [insertion]] = [fix, [insertion]] :=
    inOrder_pair (List.cons_ne_nil _ _) (List.cons_ne_nil _ _) (by decide)
  have hback : Edit.backToFront (fix ++ [insertion]) =
      [⟨⟨5, 18446744073709551615⟩, "b"⟩, insertion, ⟨⟨0, 5⟩, "a"⟩] := by
    simp [Edit.backToFront, fix, insertion, List.mergeSort]
  refine ⟨by decide, by decide, ?_, ?_, ?_⟩
  · rw [selectIn, keptIn, horder]
    decide
  · rw [selectIn, keptIn, horder]
    decide
  · rw [Edit.applyIn, hback]
    decide

end LintLayer.Batch
