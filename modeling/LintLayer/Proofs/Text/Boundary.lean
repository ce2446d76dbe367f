import LintLayer.Span
import LintLayer.Proofs.Text.Measure

/-!
# Byte boundaries

A boundary is a byte offset between two characters of a text, or at one of
its ends.  These are exactly the offsets at which a text can be cut
(`boundary_iff_isSome_cut?`).  A span fits a text when it stays inside it and
both of its ends are boundaries; then it has a text of its own, with a text
before it and one after it (`Span.fitsIn_iff`).
-/

namespace LintLayer

namespace Text

/-- `offset` bytes end between two characters of the text. -/
def Boundary (text : List Char) (offset : Nat) : Prop :=
  ∃ before after, text = before ++ after ∧ bytes before = offset

/-- A cut gives the two parts of the text around the offset. -/
theorem cut?_eq_some_iff {offset : Nat} {text before after : List Char} :
    cut? offset text = some (before, after) ↔ text = before ++ after ∧ bytes before = offset := by
  constructor
  · intro h
    fun_induction cut? offset text generalizing before with
    | case1 text =>
      obtain ⟨rfl, rfl⟩ := by simpa using h
      exact ⟨rfl, rfl⟩
    | case2 => simp at h
    | case3 n c text hfits ih =>
      obtain ⟨⟨upto, rest⟩, hcut, hparts⟩ := Option.map_eq_some_iff.mp h
      obtain ⟨rfl, rfl⟩ := Prod.mk.inj hparts
      obtain ⟨htext, hbytes⟩ := ih hcut
      refine ⟨by rw [htext, List.cons_append], ?_⟩
      rw [bytes, hbytes]
      omega
    | case4 => simp at h
  · rintro ⟨rfl, rfl⟩
    exact cut?_bytes_append before after

theorem boundary_iff_isSome_cut? {text : List Char} {offset : Nat} :
    Boundary text offset ↔ (cut? offset text).isSome = true := by
  rw [Option.isSome_iff_exists]
  constructor
  · rintro ⟨before, after, hparts⟩
    exact ⟨(before, after), cut?_eq_some_iff.mpr hparts⟩
  · rintro ⟨⟨before, after⟩, hcut⟩
    exact ⟨before, after, cut?_eq_some_iff.mp hcut⟩

instance (text : List Char) (offset : Nat) : Decidable (Boundary text offset) :=
  decidable_of_iff _ boundary_iff_isSome_cut?.symm

theorem Boundary.le_bytes {text : List Char} {offset : Nat} (h : Boundary text offset) :
    offset ≤ bytes text := by
  obtain ⟨before, after, rfl, rfl⟩ := h
  rw [bytes_append]
  omega

/-- Up to the end of its first part, the boundaries of a text are those of
this part. -/
theorem boundary_append_iff {before after : List Char} {offset : Nat}
    (hle : offset ≤ bytes before) :
    Boundary (before ++ after) offset ↔ Boundary before offset := by
  constructor
  · rintro ⟨upto, rest, hparts, rfl⟩
    obtain ⟨middle, hmiddle, -⟩ := exists_append_of_bytes_le hparts.symm hle
    exact ⟨upto, middle, hmiddle, rfl⟩
  · rintro ⟨upto, rest, rfl, rfl⟩
    exact ⟨upto, rest ++ after, by rw [List.append_assoc], rfl⟩

end Text

namespace Span

open Text

/-- The span lies inside the text and cuts no character. -/
structure FitsIn (span : Span) (text : List Char) : Prop where
  stop_le : span.stop ≤ bytes text
  start_boundary : Boundary text span.start
  stop_boundary : Boundary text span.stop

/-- A span that fits a text is the place of a part of it. -/
theorem fitsIn_iff {span : Span} {text : List Char} :
    span.FitsIn text ↔ ∃ before old after, text = before ++ old ++ after ∧
      bytes before = span.start ∧ bytes old = span.length := by
  constructor
  · intro h
    obtain ⟨before, rest, hstart, hbefore⟩ := h.start_boundary
    obtain ⟨through, after, hstop, hthrough⟩ := h.stop_boundary
    have hle : bytes before ≤ bytes through := by
      rw [hbefore, hthrough, Span.stop]
      omega
    obtain ⟨old, rfl, -⟩ := exists_append_of_bytes_le (hstart.symm.trans hstop) hle
    refine ⟨before, old, after, hstop, hbefore, ?_⟩
    rw [bytes_append, hbefore, Span.stop] at hthrough
    omega
  · rintro ⟨before, old, after, rfl, hbefore, hold⟩
    have hthrough : bytes (before ++ old) = span.stop := by
      rw [bytes_append, hbefore, hold, Span.stop]
    refine ⟨?_, ⟨before, old ++ after, by rw [List.append_assoc], hbefore⟩,
      ⟨before ++ old, after, rfl, hthrough⟩⟩
    rw [← hthrough, bytes_append (before ++ old)]
    omega

instance (span : Span) (text : List Char) : Decidable (span.FitsIn text) :=
  decidable_of_iff (span.stop ≤ bytes text ∧ Boundary text span.start ∧ Boundary text span.stop)
    ⟨fun h => ⟨h.1, h.2.1, h.2.2⟩, fun h => ⟨h.stop_le, h.start_boundary, h.stop_boundary⟩⟩

end Span

end LintLayer
