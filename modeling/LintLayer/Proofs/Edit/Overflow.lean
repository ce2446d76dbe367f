import LintLayer.Proofs.Edit.Simultaneous

/-!
# Ends that need more than 64 bits

The program adds the start and the length of a span in 64 bits.  For a span
whose end is a number of 64 bits this is the exact end, and with exact ends
edits are applied as `spliceAll` says.  For any other span a build that checks
its sums stops.  A build that does not check them is left with an end in front
of the start: it leaves the edit out, as the exact end asks for, unless both
offsets are boundaries of the text, and then it stops as well.

* `spliceIn_eq` is one step: it stops exactly at the edits that halt it
  (`Halts`), and does what the exact step does at all others.
* `applyIn_eq_replaceAtOnce` is the statement for a list of edits.
-/

namespace LintLayer

open Text

namespace Span

variable {arithmetic : Arithmetic} {span : Span}

theorem stopIn_of_lt (h : span.stop < Nat.pow 2 64) : span.stopIn arithmetic = some span.stop :=
  if_pos h

theorem stopIn_checked_of_le (h : Nat.pow 2 64 ≤ span.stop) : span.stopIn .checked = none :=
  if_neg (Nat.not_lt.mpr h)

theorem stopIn_wrapping_of_le (h : Nat.pow 2 64 ≤ span.stop) :
    span.stopIn .wrapping = some (span.stop % Nat.pow 2 64) :=
  if_neg (Nat.not_lt.mpr h)

/-- The start and the length are numbers of 64 bits. -/
structure IsWords (span : Span) : Prop where
  start_lt : span.start < Nat.pow 2 64
  length_lt : span.length < Nat.pow 2 64

instance (span : Span) : Decidable span.IsWords :=
  decidable_of_iff (span.start < Nat.pow 2 64 ∧ span.length < Nat.pow 2 64)
    ⟨fun h => ⟨h.1, h.2⟩, fun h => ⟨h.start_lt, h.length_lt⟩⟩

/-- What is left of a sum that lost its upper bits is less than the start. -/
theorem IsWords.stop_mod_lt (hwords : span.IsWords) (h : Nat.pow 2 64 ≤ span.stop) :
    span.stop % Nat.pow 2 64 < span.start := by
  obtain ⟨hstart, hlength⟩ := hwords
  rw [stop] at h ⊢
  rw [Nat.mod_eq_sub_mod h, Nat.mod_eq_of_lt (by omega)]
  omega

end Span

namespace Edit

/-- The edits that stop the program: the end of the span needs more than 64
bits, and where this is not noticed, the start and what is left of the end are
boundaries of the text. -/
structure Halts (arithmetic : Arithmetic) (edit : Edit) (text : List Char) : Prop where
  overflow : Nat.pow 2 64 ≤ edit.span.stop
  boundaries : arithmetic = .wrapping →
    Boundary text edit.span.start ∧ Boundary text (edit.span.stop % Nat.pow 2 64)

instance (arithmetic : Arithmetic) (edit : Edit) (text : List Char) :
    Decidable (edit.Halts arithmetic text) :=
  decidable_of_iff (Nat.pow 2 64 ≤ edit.span.stop ∧ (arithmetic = .wrapping →
      Boundary text edit.span.start ∧ Boundary text (edit.span.stop % Nat.pow 2 64)))
    ⟨fun h => ⟨h.1, h.2⟩, fun h => ⟨h.overflow, h.boundaries⟩⟩

/-! ## One step -/

section Step

variable {arithmetic : Arithmetic} {edit : Edit}

/-- With an exact end the program does what the edit says. -/
theorem spliceIn_of_lt (h : edit.span.stop < Nat.pow 2 64) (text : List Char) :
    edit.spliceIn arithmetic text = some (edit.splice text) := by
  rw [spliceIn, Span.stopIn_of_lt h, Option.bind_eq_bind, Option.bind_some]
  by_cases hfits : edit.span.FitsIn text
  · obtain ⟨before, old, after, rfl, hstart, hlength, hsplice⟩ := splice_of_fitsIn hfits
    have hbefore : cut? edit.span.start (before ++ old ++ after) = some (before, old ++ after) :=
      cut?_eq_some_iff.mpr ⟨by rw [List.append_assoc], hstart⟩
    have hafter : cut? edit.span.stop (before ++ old ++ after) = some (before ++ old, after) :=
      cut?_eq_some_iff.mpr ⟨rfl, by rw [bytes_append, hstart, hlength, Span.stop]⟩
    simp only [hbefore, hafter, if_pos edit.span.start_le_stop, hsplice]
  · rw [splice_of_not_fitsIn hfits]
    cases hstart : cut? edit.span.start text with
    | none => rfl
    | some parts =>
      cases hstop : cut? edit.span.stop text with
      | none => rfl
      | some more =>
        have hboundary := boundary_iff_isSome_cut?.mpr (Option.isSome_of_eq_some hstop)
        exact absurd ⟨hboundary.le_bytes,
          boundary_iff_isSome_cut?.mpr (Option.isSome_of_eq_some hstart), hboundary⟩ hfits

/-- With an end that needs more than 64 bits the program stops, or it leaves
the edit out. -/
theorem spliceIn_of_le (hwords : edit.span.IsWords) (h : Nat.pow 2 64 ≤ edit.span.stop)
    (text : List Char) :
    edit.spliceIn arithmetic text = if edit.Halts arithmetic text then none else some text := by
  cases arithmetic with
  | checked =>
    have hhalts : edit.Halts .checked text := ⟨h, nofun⟩
    rw [if_pos hhalts, spliceIn, Span.stopIn_checked_of_le h]
    rfl
  | wrapping =>
    have hbefore := Nat.not_le.mpr (hwords.stop_mod_lt h)
    rw [spliceIn, Span.stopIn_wrapping_of_le h, Option.bind_eq_bind, Option.bind_some]
    split
    · rename_i hstart hstop
      have hhalts : edit.Halts .wrapping text :=
        ⟨h, fun _ => ⟨boundary_iff_isSome_cut?.mpr (Option.isSome_of_eq_some hstart),
          boundary_iff_isSome_cut?.mpr (Option.isSome_of_eq_some hstop)⟩⟩
      rw [if_neg hbefore, if_pos hhalts]
    · rename_i hnone
      have hgoesOn : ¬ edit.Halts .wrapping text := by
        intro hhalts
        obtain ⟨hstart, hstop⟩ := hhalts.boundaries rfl
        obtain ⟨_, hstart⟩ := Option.isSome_iff_exists.mp (boundary_iff_isSome_cut?.mp hstart)
        obtain ⟨_, hstop⟩ := Option.isSome_iff_exists.mp (boundary_iff_isSome_cut?.mp hstop)
        exact hnone _ _ _ _ hstart hstop
      rw [if_neg hgoesOn]

theorem not_halts_of_lt (h : edit.span.stop < Nat.pow 2 64) (text : List Char) :
    ¬ edit.Halts arithmetic text :=
  fun hhalts => absurd hhalts.overflow (Nat.not_le.mpr h)

/-- One step on a text whose length is a number of 64 bits. -/
theorem spliceIn_eq (hwords : edit.span.IsWords) {text : List Char}
    (htext : bytes text < Nat.pow 2 64) :
    edit.spliceIn arithmetic text =
      if edit.Halts arithmetic text then none else some (edit.splice text) := by
  by_cases h : edit.span.stop < Nat.pow 2 64
  · rw [spliceIn_of_lt h, if_neg (not_halts_of_lt h text)]
  · have hle := Nat.not_lt.mp h
    have houtside : ¬ edit.span.FitsIn text := fun hfits =>
      absurd (Nat.lt_of_le_of_lt hfits.stop_le htext) h
    rw [spliceIn_of_le hwords hle, splice_of_not_fitsIn houtside]

end Step

/-! ## The whole list -/

section Run

variable {arithmetic : Arithmetic} {edits : List Edit}

theorem spliceAllIn_cons (edit : Edit) (edits : List Edit) (text : List Char) :
    spliceAllIn arithmetic text (edit :: edits) =
      (edit.spliceIn arithmetic text).bind fun next => spliceAllIn arithmetic next edits :=
  List.foldlM_cons

theorem spliceAllIn_of_lt (h : ∀ edit ∈ edits, edit.span.stop < Nat.pow 2 64)
    (text : List Char) : spliceAllIn arithmetic text edits = some (spliceAll text edits) := by
  induction edits generalizing text with
  | nil => rfl
  | cons edit edits ih =>
    rw [spliceAllIn_cons, spliceIn_of_lt (h edit (by simp)), Option.bind_some,
      ih fun other hother => h other (by simp [hother])]
    rfl

/-- With exact ends the program's text is the one of `applyAll`. -/
theorem applyIn_of_lt (h : ∀ edit ∈ edits, edit.span.stop < Nat.pow 2 64) (text : String) :
    applyIn arithmetic text edits = some (applyAll text edits) := by
  have hsorted : ∀ edit ∈ backToFront edits, edit.span.stop < Nat.pow 2 64 := fun edit hedit =>
    h edit ((perm_backToFront edits).mem_iff.mp hedit)
  rw [applyIn, spliceAllIn_of_lt hsorted, Option.map_some]
  rfl

/-- Of edits that each end in front of all those before it only the first one
can have an end that needs more than 64 bits. -/
theorem spliceAllIn_of_behind (hbehind : edits.Pairwise Behind)
    (hwords : ∀ edit ∈ edits, edit.span.IsWords) {text : List Char}
    (htext : bytes text < Nat.pow 2 64) :
    spliceAllIn arithmetic text edits =
      if ∃ edit ∈ edits, edit.Halts arithmetic text then none else some (spliceAll text edits) := by
  cases edits with
  | nil => simp [spliceAllIn, spliceAll]
  | cons first rest =>
    have hfirst := hwords first (by simp)
    have hrest : ∀ edit ∈ rest, edit.span.stop < Nat.pow 2 64 := fun edit hedit =>
      Nat.lt_of_le_of_lt ((List.pairwise_cons.mp hbehind).1 edit hedit).1 hfirst.start_lt
    have hany : (∃ edit ∈ first :: rest, edit.Halts arithmetic text) ↔
        first.Halts arithmetic text := by
      constructor
      · rintro ⟨edit, hedit, hhalts⟩
        rcases List.mem_cons.mp hedit with rfl | hedit
        · exact hhalts
        · exact absurd hhalts (not_halts_of_lt (hrest edit hedit) text)
      · exact fun hhalts => ⟨first, by simp, hhalts⟩
    rw [spliceAllIn_cons, spliceIn_eq hfirst htext]
    by_cases hhalts : first.Halts arithmetic text
    · rw [if_pos hhalts, if_pos (hany.mpr hhalts), Option.bind_none]
    · rw [if_neg hhalts, if_neg (mt hany.mp hhalts), Option.bind_some, spliceAllIn_of_lt hrest]
      rfl

/-- An edit that does not stop the program replaces the part of the text at its
span, or leaves the text alone. -/
theorem spliceIn_eq_some {edit : Edit} (hwords : edit.span.IsWords) {text next : List Char}
    (hnext : edit.spliceIn arithmetic text = some next) :
    if edit.span.stop < Nat.pow 2 64 ∧ edit.span.FitsIn text then
      ∃ before old after, text = before ++ old ++ after ∧ bytes before = edit.span.start ∧
        bytes old = edit.span.length ∧ next = before ++ edit.newText.toList ++ after
    else next = text := by
  by_cases hlt : edit.span.stop < Nat.pow 2 64
  · rw [spliceIn_of_lt hlt, Option.some.injEq] at hnext
    by_cases hfits : edit.span.FitsIn text
    · obtain ⟨before, old, after, htext, hstart, hlength, hsplice⟩ := splice_of_fitsIn hfits
      rw [if_pos ⟨hlt, hfits⟩]
      exact ⟨before, old, after, htext, hstart, hlength, hnext ▸ hsplice⟩
    · rw [if_neg fun h => hfits h.2, ← hnext, splice_of_not_fitsIn hfits]
  · rw [spliceIn_of_le hwords (Nat.not_lt.mp hlt)] at hnext
    rw [if_neg fun h => hlt h.1]
    split at hnext
    · cases hnext
    · exact (Option.some.inj hnext).symm

theorem spliceIn_eq_none_iff {edit : Edit} (hwords : edit.span.IsWords) (text : List Char) :
    edit.spliceIn arithmetic text = none ↔ edit.Halts arithmetic text := by
  by_cases hlt : edit.span.stop < Nat.pow 2 64
  · simp [spliceIn_of_lt hlt, not_halts_of_lt hlt]
  · simp [spliceIn_of_le hwords (Nat.not_lt.mp hlt)]

end Run

/-- Applying edits from the back to the front, for edits with different starts
that do not overlap: in whatever order they are listed, the text is the one
with all edits done at once that fit the text at the start, and at each step
the edit fits the text of this step exactly if it fits the text at the start.
The one exception is an edit that halts the program; no edit does whose end is
a number of 64 bits.

For any list of edits, a step stops the program exactly if its edit halts it.
Otherwise, if the edit fits the text of this step, it replaces a part that is
there, at the bytes of the span, and if not the text stays. -/
theorem applyIn_eq_replaceAtOnce (arithmetic : Arithmetic) (text : String)
    (htext : bytes text.toList < Nat.pow 2 64) (edits : List Edit)
    (hwords : ∀ edit ∈ edits, edit.span.IsWords) :
    ((edits.Pairwise fun a b => a.span.start ≠ b.span.start ∧ a.span.Disjoint b.span) →
      ∀ order : List Edit, order.Perm edits →
        (applyIn arithmetic text order).map String.toList =
            (if ∃ edit ∈ edits, edit.Halts arithmetic text.toList then none
              else some (replaceAtOnce text.toList edits)) ∧
        ∀ done edit todo, backToFront order = done ++ edit :: todo →
          ∀ current, spliceAllIn arithmetic text.toList done = some current →
            (edit.span.FitsIn current ↔ edit.span.FitsIn text.toList)) ∧
    ∀ done edit todo, backToFront edits = done ++ edit :: todo →
      ∀ current, spliceAllIn arithmetic text.toList done = some current →
        (edit.spliceIn arithmetic current = none ↔ edit.Halts arithmetic current) ∧
        ∀ next, edit.spliceIn arithmetic current = some next →
          if edit.span.stop < Nat.pow 2 64 ∧ edit.span.FitsIn current then
            ∃ before old after, current = before ++ old ++ after ∧
              bytes before = edit.span.start ∧ bytes old = edit.span.length ∧
                next = before ++ edit.newText.toList ++ after
          else next = current := by
  constructor
  · intro hedits order hperm
    obtain ⟨hbehind, htexts⟩ := backToFront_of_starts_ne hedits hperm
    have hperm' : (backToFront order).Perm edits := (perm_backToFront order).trans hperm
    have hsorted : ∀ edit ∈ backToFront order, edit.span.IsWords := fun edit hedit =>
      hwords edit (hperm'.mem_iff.mp hedit)
    refine ⟨?_, fun done edit todo hsplit current hcurrent => ?_⟩
    · rw [applyIn, spliceAllIn_of_behind hbehind hsorted htext, ← htexts text.toList]
      simp only [hperm'.mem_iff]
      split
      · rfl
      · simp [String.toList_ofList]
    · rw [hsplit] at hbehind hsorted
      obtain ⟨hdone, -, hcross⟩ := List.pairwise_append.mp hbehind
      rw [spliceAllIn_of_behind hdone (fun other h => hsorted other (by simp [h])) htext]
        at hcurrent
      split at hcurrent
      · cases hcurrent
      · obtain rfl := Option.some.inj hcurrent
        exact fitsIn_spliceAll_iff (fun other h => (hcross other h edit (by simp)).1) _
  · intro done edit todo hsplit current _
    have hmem : edit ∈ backToFront edits := by simp [hsplit]
    have hedit := hwords edit ((perm_backToFront edits).mem_iff.mp hmem)
    exact ⟨spliceIn_eq_none_iff hedit current, fun next => spliceIn_eq_some hedit⟩

/-- A replacement at the end, one past the end, one inside a character, an
insertion that touches a replacement, and an end that needs more than 64
bits. -/
theorem applyIn_eq_replaceAtOnce_mixed :
    let edits : List Edit :=
      [⟨⟨5, 1⟩, "cut"⟩, ⟨⟨0, 3⟩, "var"⟩, ⟨⟨9, 1⟩, "2;"⟩, ⟨⟨3, 0⟩, "!"⟩, ⟨⟨10, 1⟩, "out"⟩,
        ⟨⟨12, 18446744073709551615⟩, "far"⟩]
    bytes "let é = 1".toList < Nat.pow 2 64 ∧ (∀ edit ∈ edits, edit.span.IsWords) ∧
      (edits.Pairwise fun a b => a.span.start ≠ b.span.start ∧ a.span.Disjoint b.span) ∧
      (applyIn .wrapping "let é = 1" edits).map String.toList = some "var! é = 2;".toList ∧
      (applyIn .checked "let é = 1" edits).map String.toList = none := by
  intro edits
  have htext : bytes "let é = 1".toList < Nat.pow 2 64 := by decide
  have hwords : ∀ edit ∈ edits, edit.span.IsWords := by decide
  have hedits : edits.Pairwise fun a b =>
      a.span.start ≠ b.span.start ∧ a.span.Disjoint b.span := by decide
  have happly := fun arithmetic => ((applyIn_eq_replaceAtOnce arithmetic "let é = 1" htext
    edits hwords).1 hedits edits (List.Perm.refl _)).1
  refine ⟨htext, hwords, hedits, ?_, ?_⟩
  · rw [happly, if_neg (by decide)]
    decide
  · rw [happly, if_pos (by decide)]

/-- An edit far behind the text.  Its exact end is far behind the text too, so
it should be left out; but what 64 bits hold of its end is the offset 0, and no
range goes from 1 to 0. -/
theorem far_edit_halts :
    let far : Edit := ⟨⟨1, 18446744073709551615⟩, "x"⟩
    ¬ far.span.FitsIn "ab".toList ∧ replaceAtOnce "ab".toList [far] = "ab".toList ∧
      applyIn .checked "ab" [far] = none ∧ applyIn .wrapping "ab" [far] = none := by
  decide +kernel

end Edit

end LintLayer
