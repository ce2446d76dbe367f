import LintLayer.Proofs.Text.Measure

/-!
# UTF-16

The encoding that the analyzer measures a text in.  `units` is the length of
the encoded text.

A boundary is an offset in code units between two characters.  Two
beginnings of one text are ordered by their code units as they are by their
bytes, so the map from boundaries to byte offsets keeps the order
(`bytes_fitUnits_lt_iff`).
-/

namespace LintLayer.Text

/-! ## The encoding -/

/-- The code units of a character.  A character above U+FFFF is a pair of
surrogates. -/
def utf16Char (c : Char) : List UInt16 :=
  if c.toNat < 0x10000 then [UInt16.ofNat c.toNat]
  else
    let offset := c.toNat - 0x10000
    [UInt16.ofNat (0xD800 + offset / 0x400), UInt16.ofNat (0xDC00 + offset % 0x400)]

/-- The code units of a text. -/
def utf16 (cs : List Char) : List UInt16 :=
  cs.flatMap utf16Char

@[simp] theorem utf16_append (before after : List Char) :
    utf16 (before ++ after) = utf16 before ++ utf16 after :=
  List.flatMap_append

theorem length_utf16Char (c : Char) : (utf16Char c).length = unitWidth c := by
  unfold utf16Char unitWidth
  split <;> rfl

@[simp] theorem length_utf16 (cs : List Char) : (utf16 cs).length = units cs := by
  induction cs with
  | nil => rfl
  | cons c cs ih =>
    have hcons : utf16 (c :: cs) = utf16Char c ++ utf16 cs := List.flatMap_cons
    rw [hcons, List.length_append, length_utf16Char, ih, units]

example : utf16 ['a', '😀'] = [0x61, 0xD83D, 0xDE00] := by decide

/-! ## Boundaries -/

/-- `offset` code units end between two characters of the text. -/
def UnitBoundary (text : List Char) (offset : Nat) : Prop :=
  ∃ before after, text = before ++ after ∧ units before = offset

/-- A boundary is an offset that a beginning of the text fits exactly. -/
theorem unitBoundary_iff {text : List Char} {offset : Nat} :
    UnitBoundary text offset ↔ units (fitUnits offset text) = offset := by
  constructor
  · rintro ⟨before, after, rfl, rfl⟩
    rw [fitUnits_units_append]
  · intro h
    obtain ⟨rest, hrest⟩ := exists_fitUnits_append offset text
    exact ⟨fitUnits offset text, rest, hrest, h⟩

instance (text : List Char) (offset : Nat) : Decidable (UnitBoundary text offset) :=
  decidable_of_iff _ unitBoundary_iff.symm

theorem units_eq_zero_iff {cs : List Char} : units cs = 0 ↔ cs = [] := by
  cases cs with
  | nil => simp [units]
  | cons c cs =>
    have hpos := unitWidth_pos c
    simp only [units, reduceCtorEq, iff_false]
    omega

/-- Of two beginnings of one text, the one with fewer code units is a
beginning of the other. -/
theorem exists_append_of_units_le {before after before' after' : List Char}
    (h : before ++ after = before' ++ after') (hle : units before ≤ units before') :
    ∃ middle, before' = before ++ middle ∧ after = middle ++ after' :=
  exists_append_of_length_le units_append (fun _ => units_eq_zero_iff.mp) h hle

/-- The text between two boundaries, measured in both lengths. -/
theorem exists_between_boundaries {text : List Char} {first second : Nat}
    (hfirst : UnitBoundary text first) (hsecond : UnitBoundary text second)
    (hle : first ≤ second) :
    ∃ middle, second = first + units middle ∧
      bytes (fitUnits second text) = bytes (fitUnits first text) + bytes middle := by
  obtain ⟨before, after, htext, rfl⟩ := hfirst
  obtain ⟨before', after', htext', rfl⟩ := hsecond
  obtain ⟨middle, hmiddle, -⟩ := exists_append_of_units_le (htext.symm.trans htext') hle
  have hleft : fitUnits (units before) text = before := by
    rw [htext, fitUnits_units_append]
  have hright : fitUnits (units before') text = before' := by
    rw [htext', fitUnits_units_append]
  refine ⟨middle, by rw [hmiddle, units_append], ?_⟩
  rw [hleft, hright, hmiddle, bytes_append]

/-- Boundaries are ordered by their bytes as they are by their code
units. -/
theorem bytes_fitUnits_lt_iff {text : List Char} {first second : Nat}
    (hfirst : UnitBoundary text first) (hsecond : UnitBoundary text second) :
    bytes (fitUnits first text) < bytes (fitUnits second text) ↔ first < second := by
  rcases Nat.lt_or_ge first second with hlt | hge
  · obtain ⟨middle, hunits, hbytes⟩ :=
      exists_between_boundaries hfirst hsecond (Nat.le_of_lt hlt)
    have hpos : bytes middle ≠ 0 := by
      intro hzero
      rw [eq_nil_of_bytes_eq_zero hzero] at hunits
      simp only [units] at hunits
      omega
    omega
  · obtain ⟨middle, -, hbytes⟩ := exists_between_boundaries hsecond hfirst hge
    omega

end LintLayer.Text
