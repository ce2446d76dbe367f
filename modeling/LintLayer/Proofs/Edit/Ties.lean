import LintLayer.Proofs.Edit.Simultaneous

/-!
# An insertion and a replacement at one place

Two edits that do not overlap can still start together, when one of them
inserts.  The order in which they are applied is then the order in which they
are listed.

* Listed behind the replacement, the insertion finds the place that it is
  meant for, and both edits are done as if at once
  (`applyAll_of_compatible`, first part).
* Listed in front, it moves the text that the replacement is meant for.  The
  replacement then takes its bytes from the inserted text: `overwriting` is the
  one edit that the two amount to.  `applyAll_insertion_first` proves this in
  the middle of any list.
-/

namespace LintLayer.Edit

open Text

/-- Edits of a text that do not overlap, with at most one insertion at each
place. -/
structure Compatible (text : List Char) (edits : List Edit) : Prop where
  fits : ∀ edit ∈ edits, edit.span.FitsIn text
  disjoint : edits.Pairwise fun a b => a.span.Disjoint b.span
  insertions : edits.Pairwise fun a b =>
    a.span.length = 0 → b.span.length = 0 → a.span.start ≠ b.span.start

/-- Wherever two edits start together, the second one inserts. -/
def InsertionsLast (edits : List Edit) : Prop :=
  edits.Pairwise fun a b => a.span.start = b.span.start → b.span.length = 0

instance (edits : List Edit) : Decidable (InsertionsLast edits) :=
  inferInstanceAs (Decidable (edits.Pairwise _))

instance (text : List Char) (edits : List Edit) : Decidable (Compatible text edits) :=
  decidable_of_iff
    ((∀ edit ∈ edits, edit.span.FitsIn text) ∧
      (edits.Pairwise fun a b => a.span.Disjoint b.span) ∧
        edits.Pairwise fun a b =>
          a.span.length = 0 → b.span.length = 0 → a.span.start ≠ b.span.start)
    ⟨fun h => ⟨h.1, h.2.1, h.2.2⟩, fun h => ⟨h.fits, h.disjoint, h.insertions⟩⟩

theorem Compatible.separate {text : List Char} {edits : List Edit} (h : Compatible text edits) :
    edits.Pairwise Separate := by
  refine (h.disjoint.and h.insertions).imp ?_
  rintro a b ⟨hdisjoint, hinsertions⟩
  refine ⟨hdisjoint, fun hspan => ?_⟩
  have hempty : b.span.length = 0 := by
    rw [hspan] at hdisjoint
    rcases hdisjoint with hstop | hstop
    all_goals
      rw [Span.stop] at hstop
      omega
  exact hinsertions (hspan ▸ hempty) hempty (congrArg Span.start hspan)

theorem Compatible.perm {text : List Char} {edits order : List Edit} (h : Compatible text edits)
    (hperm : order.Perm edits) : Compatible text order where
  fits edit hedit := h.fits edit (hperm.mem_iff.mp hedit)
  disjoint := (hperm.pairwise_iff Span.Disjoint.symm).mpr h.disjoint
  insertions := (hperm.pairwise_iff fun hab hb ha => (hab ha hb).symm).mpr h.insertions

/-! ## The two edits as one -/

/-- The edit that an insertion and a replacement at its place amount to, when
the insertion is done first.  The inserted text stands where the replaced text
was.  If the length of the replacement ends between two characters there, that
much goes and the rest of both stays; otherwise the replacement is left out. -/
def overwriting (text : List Char) (insertion replacement : Edit) : Edit :=
  let moved := insertion.newText.toList ++
    slice replacement.span.start replacement.span.stop text
  { span := replacement.span
    newText := String.ofList
      (match cut? replacement.span.length moved with
      | some (_, rest) => replacement.newText.toList ++ rest
      | none => moved) }

/-- One step: the two edits, the insertion first, do to a text what the one
edit does. -/
theorem splice_splice_insertion {insertion replacement : Edit} {before old : List Char}
    (hplace : insertion.span = Span.emptyAt replacement.span.start)
    (hstart : bytes before = replacement.span.start) (hold : bytes old = replacement.span.length)
    (after rest : List Char) :
    replacement.splice (insertion.splice (before ++ old ++ after)) =
      (overwriting (before ++ old ++ rest) insertion replacement).splice
        (before ++ old ++ after) := by
  have hslice : slice replacement.span.start replacement.span.stop (before ++ old ++ rest) =
      old := by
    rw [Span.stop, ← hstart, ← hold, slice_append]
  have hspan : replacement.span = ⟨bytes before, bytes old⟩ := by rw [hstart, hold]
  have hinserted : insertion.splice (before ++ old ++ after) =
      before ++ (insertion.newText.toList ++ old) ++ after := by
    have h := Patch.splice_middle before [] (old ++ after) insertion.newText
    have hinsertion : insertion = ⟨⟨bytes before, bytes []⟩, insertion.newText⟩ := by
      rw [hstart]
      exact congrArg (Edit.mk · insertion.newText) hplace
    rw [← hinsertion] at h
    simpa only [List.append_nil, List.append_assoc] using h
  have hone : ∀ new : String, Edit.splice ⟨replacement.span, new⟩ (before ++ old ++ after) =
      before ++ new.toList ++ after := by
    intro new
    rw [hspan]
    exact Patch.splice_middle before old after new
  rw [hinserted, overwriting, hslice, hone, String.toList_ofList]
  cases hcut : cut? replacement.span.length (insertion.newText.toList ++ old) with
  | some parts =>
    obtain ⟨gone, left⟩ := parts
    obtain ⟨hmoved, hgone⟩ := cut?_eq_some_iff.mp hcut
    have h := Patch.splice_middle before gone (left ++ after) replacement.newText
    have hreplacement : replacement = ⟨⟨bytes before, bytes gone⟩, replacement.newText⟩ := by
      rw [hstart, hgone]
    rw [← hreplacement] at h
    rw [hmoved]
    simpa only [List.append_assoc] using h
  | none =>
    -- the replacement would end inside a character of the moved text
    refine splice_of_not_fitsIn fun hfits => ?_
    obtain ⟨front, part, back, hparts, hfront, hpart⟩ := Span.fitsIn_iff.mp hfits
    rw [List.append_assoc, List.append_assoc front] at hparts
    obtain ⟨-, hmoved⟩ := append_inj_of_bytes_eq hparts (hstart.trans hfront.symm)
    have hlength : replacement.span.length ≤ bytes (insertion.newText.toList ++ old) := by
      rw [bytes_append, hold]
      omega
    have hboundary : Boundary (insertion.newText.toList ++ old) replacement.span.length :=
      (boundary_append_iff hlength).mp ⟨part, back, hmoved, hpart⟩
    rw [boundary_iff_isSome_cut?, hcut] at hboundary
    cases hboundary

/-- Edits behind a part of the text keep it. -/
theorem exists_spliceAll_append {part : List Char} {edits : List Edit}
    (hbehind : ∀ edit ∈ edits, bytes part ≤ edit.span.start) (rest : List Char) :
    ∃ rest', spliceAll (part ++ rest) edits = part ++ rest' := by
  induction edits generalizing rest with
  | nil => exact ⟨rest, rfl⟩
  | cons edit edits ih =>
    have hlater := ih fun other h => hbehind other (by simp [h])
    by_cases hfits : edit.span.FitsIn (part ++ rest)
    · obtain ⟨before, old, after, hparts, hstart, -, hsplice⟩ := splice_of_fitsIn hfits
      have hle : bytes part ≤ bytes before := hstart ▸ hbehind edit (by simp)
      rw [List.append_assoc] at hparts
      obtain ⟨middle, rfl, -⟩ := exists_append_of_bytes_le hparts hle
      obtain ⟨rest', hrest⟩ := hlater (middle ++ edit.newText.toList ++ after)
      refine ⟨rest', ?_⟩
      rw [← hrest]
      simp only [spliceAll, List.foldl_cons, hsplice, List.append_assoc]
    · obtain ⟨rest', hrest⟩ := hlater rest
      refine ⟨rest', ?_⟩
      rw [← hrest]
      simp only [spliceAll, List.foldl_cons, splice_of_not_fitsIn hfits]

/-! ## The two edits in a list -/

/-- Beside an insertion and a replacement at one place there is no third edit
at it. -/
theorem start_ne_of_separate {insertion replacement other : Edit}
    (hplace : insertion.span = Span.emptyAt replacement.span.start)
    (hpair : Separate insertion replacement) (hinsertion : Separate insertion other)
    (hreplacement : Separate replacement other) :
    other.span.start ≠ replacement.span.start := by
  intro hstart
  have hempty : ∀ edit : Edit, edit.span.start = replacement.span.start →
      Separate insertion edit → 0 < edit.span.length := by
    intro edit hedit hapart
    refine Nat.pos_of_ne_zero fun hzero => hapart.2 ?_
    rw [hplace, Span.emptyAt, ← hedit, ← hzero]
  have hlength := hempty replacement rfl hpair
  have hlength' := hempty other hstart hinsertion
  rcases hreplacement.1 with hstop | hstop
  all_goals
    rw [Span.stop] at hstop
    omega

/-- Two edits of a list, and the others in their order. -/
theorem perm_pair_first (front middle back : List Edit) (first second : Edit) :
    (front ++ first :: (middle ++ second :: back)).Perm
      (first :: second :: (front ++ (middle ++ back))) := by
  have h : (front ++ (middle ++ second :: back)).Perm (second :: (front ++ (middle ++ back))) := by
    rw [← List.append_assoc, ← List.append_assoc]
    exact List.perm_middle
  exact List.perm_middle.trans (h.cons first)

/-- Two edits that start together and no other edit with them, or one edit in
their place: the edits around them are applied in the same order. -/
theorem exists_backToFront_pair {front middle back : List Edit} {first second one : Edit}
    (hsecond : second.span.start = first.span.start) (hone : one.span.start = first.span.start)
    (hothers : ∀ other ∈ front ++ (middle ++ back), other.span.start ≠ first.span.start) :
    ∃ behind inFront,
      backToFront (front ++ first :: (middle ++ second :: back)) =
        behind ++ [first, second] ++ inFront ∧
      backToFront (front ++ one :: (middle ++ back)) = behind ++ [one] ++ inFront ∧
      ∀ edit ∈ behind,
        edit ∈ front ++ (middle ++ back) ∧ first.span.start < edit.span.start := by
  have hnone : ((front ++ (middle ++ back)).filter
      fun other => other.span.start = first.span.start) = [] := by
    rw [List.filter_eq_nil_iff]
    intro other hother hsame
    exact hothers other hother (of_decide_eq_true hsame)
  simp only [List.filter_append, List.append_eq_nil_iff] at hnone
  obtain ⟨hfront, hmiddle, hback⟩ := hnone
  refine ⟨backToFront ((front ++ (middle ++ back)).filter
      fun edit => first.span.start < edit.span.start),
    backToFront ((front ++ (middle ++ back)).filter
      fun edit => edit.span.start < first.span.start), ?_, ?_, ?_⟩
  · rw [backToFront_split _ first.span.start]
    simp [hsecond, hfront, hmiddle, hback]
  · rw [backToFront_split _ first.span.start]
    simp [hone, hfront, hmiddle, hback]
  · intro edit hedit
    obtain ⟨hmem, hgreater⟩ := List.mem_filter.mp ((perm_backToFront _).mem_iff.mp hedit)
    exact ⟨hmem, of_decide_eq_true hgreater⟩

/-- Applying a list in which an insertion comes in front of the replacement at
its place is applying the list with the one edit that the two amount to. -/
theorem applyAll_insertion_first {text : String} {front middle back : List Edit}
    {insertion replacement : Edit}
    (h : Compatible text.toList (front ++ insertion :: (middle ++ replacement :: back)))
    (hplace : insertion.span = Span.emptyAt replacement.span.start) :
    applyAll text (front ++ insertion :: (middle ++ replacement :: back)) =
      applyAll text
        (front ++ overwriting text.toList insertion replacement :: (middle ++ back)) := by
  have hperm := perm_pair_first front middle back insertion replacement
  obtain ⟨hinsertion, hrest⟩ :=
    List.pairwise_cons.mp ((hperm.pairwise_iff Separate.symm).mp h.separate)
  obtain ⟨hreplacement, -⟩ := List.pairwise_cons.mp hrest
  have hstart : replacement.span.start = insertion.span.start := by rw [hplace, Span.emptyAt]
  have hothers : ∀ other ∈ front ++ (middle ++ back),
      other.span.start ≠ insertion.span.start := by
    intro other hother
    rw [← hstart]
    exact start_ne_of_separate hplace (hinsertion replacement (by simp))
      (hinsertion other (List.mem_cons_of_mem _ hother)) (hreplacement other hother)
  obtain ⟨behind, inFront, htwo, hone, hbehind⟩ := exists_backToFront_pair hstart
    (show (overwriting text.toList insertion replacement).span.start = _ from hstart) hothers
  -- the edits behind the place leave the text up to the end of the replacement
  obtain ⟨before, old, after, htext, hbefore, hold⟩ :=
    Span.fitsIn_iff.mp (h.fits replacement (by simp))
  have hlater : ∀ edit ∈ behind, bytes (before ++ old) ≤ edit.span.start := by
    intro edit hedit
    obtain ⟨hmem, hgreater⟩ := hbehind edit hedit
    rw [bytes_append, hbefore, hold]
    rcases (hreplacement edit hmem).1 with hstop | hstop
    · exact hstop
    · have hends := edit.span.start_le_stop
      omega
  obtain ⟨after', hdone⟩ := exists_spliceAll_append hlater after
  have hstep := splice_splice_insertion hplace hbefore hold after' after
  rw [← htext] at hdone hstep
  rw [← String.toList_inj, toList_applyAll, toList_applyAll, htwo, hone]
  simp only [spliceAll_append, hdone]
  exact congrArg (spliceAll · inFront) hstep

/-- The one edit leaves nothing else to settle: it fits the text, and it does
not overlap the others. -/
theorem Compatible.overwriting {text : List Char} {front middle back : List Edit}
    {insertion replacement : Edit}
    (h : Compatible text (front ++ insertion :: (middle ++ replacement :: back))) :
    Compatible text
      (front ++ Edit.overwriting text insertion replacement :: (middle ++ back)) := by
  have hperm := perm_pair_first front middle back insertion replacement
  have hfirst := h.perm hperm.symm
  have hrest : Compatible text (replacement :: (front ++ (middle ++ back))) :=
    ⟨fun edit hedit => hfirst.fits edit (List.mem_cons_of_mem _ hedit),
      (List.pairwise_cons.mp hfirst.disjoint).2, (List.pairwise_cons.mp hfirst.insertions).2⟩
  have hone : Compatible text
      (Edit.overwriting text insertion replacement :: (front ++ (middle ++ back))) := by
    refine ⟨fun edit hedit => ?_, List.pairwise_cons.mpr (List.pairwise_cons.mp hrest.disjoint),
      List.pairwise_cons.mpr (List.pairwise_cons.mp hrest.insertions)⟩
    rcases List.mem_cons.mp hedit with rfl | hedit
    · exact hrest.fits replacement (by simp)
    · exact hrest.fits edit (by simp [hedit])
  exact hone.perm List.perm_middle

/-! ## Whole lists -/

/-- What becomes of edits that do not overlap, with at most one insertion at
each place.  In every order that lists an insertion behind the replacement at
its place, they are done as if at once: the characters inside the spans go, the
others stay, and the inserted text stands in front of the replacing one.  In an
order that lists an insertion in front, it and the replacement act as one edit,
which takes the bytes to replace from the inserted text. -/
theorem applyAll_of_compatible (text : String) (edits : List Edit)
    (h : Compatible text.toList edits) :
    (∀ order : List Edit, order.Perm edits → InsertionsLast order →
      (applyAll text order).toList = replaceAtOnce text.toList edits) ∧
    ∀ (front middle back : List Edit) (insertion replacement : Edit),
      (front ++ insertion :: (middle ++ replacement :: back)).Perm edits →
      insertion.span = Span.emptyAt replacement.span.start →
      let one := overwriting text.toList insertion replacement
      applyAll text (front ++ insertion :: (middle ++ replacement :: back)) =
          applyAll text (front ++ one :: (middle ++ back)) ∧
        Compatible text.toList (front ++ one :: (middle ++ back)) := by
  constructor
  · intro order hperm hlast
    have hseparate := (h.perm hperm).separate
    rw [toList_applyAll,
      spliceAll_eq_replaceAtOnce _ (pairwise_behind_backToFront hseparate hlast)]
    exact replaceAtOnce_perm _ h.separate ((perm_backToFront order).trans hperm)
  · intro front middle back insertion replacement hperm hplace
    exact ⟨applyAll_insertion_first (h.perm hperm) hplace, (h.perm hperm).overwriting⟩

/-- The insertion behind its replacement, and in front of it.  There the
replacement would end inside the letter that the insertion moved, and is left
out. -/
theorem applyAll_of_compatible_letter :
    let insertion : Edit := ⟨⟨1, 0⟩, "<"⟩
    let replacement : Edit := ⟨⟨1, 2⟩, "e"⟩
    let other : Edit := ⟨⟨3, 1⟩, "!"⟩
    Compatible "aéb".toList [insertion, other, replacement] ∧
      InsertionsLast [replacement, insertion, other] ∧
      (applyAll "aéb" [replacement, insertion, other]).toList = "a<e!".toList ∧
      applyAll "aéb" [insertion, other, replacement] = applyAll "aéb" [⟨⟨1, 2⟩, "<é"⟩, other] := by
  intro insertion replacement other
  have hedits : Compatible "aéb".toList [insertion, other, replacement] := by decide
  have hlast : InsertionsLast [replacement, insertion, other] := by decide
  have hperm : [replacement, insertion, other].Perm [insertion, other, replacement] := by decide
  have hone : overwriting "aéb".toList insertion replacement = ⟨⟨1, 2⟩, "<é"⟩ := by decide
  obtain ⟨hlisted, hfirst⟩ := applyAll_of_compatible "aéb" _ hedits
  refine ⟨hedits, hlast, ?_, ?_⟩
  · rw [hlisted _ hperm hlast]
    decide
  · have h := (hfirst [] [other] [] insertion replacement (List.Perm.refl _) rfl).1
    rw [hone] at h
    exact h

/-- Two edits that do not overlap, listed in both orders.  In one of them the
inserted text is lost, and a character inside the span of the replacement is
kept. -/
theorem insertion_first_is_lost :
    let edits : List Edit := [⟨⟨0, 0⟩, "x"⟩, ⟨⟨0, 1⟩, "y"⟩]
    Compatible "abc".toList edits ∧ replaceAtOnce "abc".toList edits = "xybc".toList ∧
      applyAll "abc" edits = "yabc" ∧ applyAll "abc" edits.reverse = "xybc" := by
  intro edits
  have hsorted : backToFront edits = edits := List.mergeSort_of_pairwise (by decide)
  have hreverse : backToFront edits.reverse = edits.reverse :=
    List.mergeSort_of_pairwise (by decide)
  refine ⟨by decide, by decide, ?_, ?_⟩
  · rw [applyAll, applyChars, hsorted]
    decide
  · rw [applyAll, applyChars, hreverse]
    decide

end LintLayer.Edit
