import LintLayer.Proofs.LineTable.Tiling

/-!
# Byte offsets of code units

The table answers an offset in code units in two steps: it looks up the line
by the units before it, and then walks inside the line.  A plain text takes
a short cut.  `offsetOfUnits_ofChars` says what both ways compute: the bytes
of the longest beginning of the text that fits into the units.
-/

namespace LintLayer.LineTable

open Text

/-! ## The lines by the units before them -/

/-- The number of the line, counted from zero, that the units `offset` lead
to. -/
def lineOfUnits (unitStarts : List Nat) (offset : Nat) : Nat :=
  (unitStarts.takeWhile fun start => start ≤ offset).length - 1

theorem lineOfUnits_singleton {before offset : Nat} (h : before ≤ offset) :
    lineOfUnits [before] offset = 0 := by
  simp [lineOfUnits, h]

theorem lineOfUnits_cons_of_lt {before second offset : Nat} {more : List Nat}
    (hfirst : before ≤ offset) (hsecond : offset < second) :
    lineOfUnits (before :: second :: more) offset = 0 := by
  simp [lineOfUnits, hfirst, Nat.not_le.mpr hsecond]

theorem lineOfUnits_cons_of_le {before second offset : Nat} {more : List Nat}
    (hfirst : before ≤ offset) (hsecond : second ≤ offset) :
    lineOfUnits (before :: second :: more) offset = lineOfUnits (second :: more) offset + 1 := by
  simp [lineOfUnits, hfirst, hsecond]

/-- The units before the lines after the first one count from the end of the
first one. -/
theorem unitStartsFrom_line (before : Nat) (line : Line) (lines : List Line)
    (here rest : List Char) (hlength : line.next - line.start = bytes here) :
    unitStartsFrom before (here ++ rest) (line :: lines) =
      before :: unitStartsFrom (before + units here) rest lines := by
  rw [unitStartsFrom, hlength, cut?_bytes_append]

theorem unitStartsFrom_last (before start : Nat) (content : List Char) :
    unitStartsFrom before content [⟨start, start + bytes content, start + bytes content⟩] =
      [before] := by
  have h := unitStartsFrom_line before
    ⟨start, start + bytes content, start + bytes content⟩ [] content [] (by simp)
  simpa [unitStartsFrom] using h

theorem exists_unitStartsFrom_eq_cons {start : Nat} {text : List Char} {lines : List Line}
    (htiled : Tiled start text lines) (before : Nat) :
    ∃ more, unitStartsFrom before text lines = before :: more := by
  cases htiled with
  | last hplain =>
    exact ⟨[], unitStartsFrom_last before start text⟩
  | @line _ content terminator rest lines hplain hterminator tail =>
    refine ⟨_, unitStartsFrom_line before _ lines (content ++ terminator) rest ?_⟩
    simp only [bytes_append]
    omega

/-- The line that the units lead to, the units before it, and the part of the
text that it covers.  The walk inside this part ends where the walk through all
the lines ends.  `past` is the text in front of the lines. -/
theorem exists_line_of_units {start : Nat} {text : List Char} {lines : List Line}
    (htiled : Tiled start text lines) (past : List Char) (hstart : start = bytes past)
    {before offset : Nat} (hbefore : before ≤ offset) :
    ∃ line lineBefore here,
      lines[lineOfUnits (unitStartsFrom before text lines) offset]? = some line ∧
      (unitStartsFrom before text lines)[lineOfUnits (unitStartsFrom before text lines) offset]?
        = some lineBefore ∧
      lineBefore ≤ offset ∧ line.start ≤ line.next ∧
      slice? line.start line.next (past ++ text) = some here ∧
      line.start + bytes (fitUnits (offset - lineBefore) here) =
        start + bytes (fitUnits (offset - before) text) := by
  induction htiled generalizing past before with
  | @last start content hplain =>
    rw [unitStartsFrom_last, lineOfUnits_singleton hbefore]
    have hslice := slice?_append past content []
    rw [List.append_nil, ← hstart] at hslice
    exact ⟨_, _, content, rfl, rfl, hbefore, Nat.le_add_right _ _, hslice, rfl⟩
  | @line start content terminator rest lines hplain hterminator tail ih =>
    have hstarts := unitStartsFrom_line before
      ⟨start, start + bytes content, start + bytes content + bytes terminator⟩ lines
      (content ++ terminator) rest (by simp only [bytes_append]; omega)
    obtain ⟨more, hmore⟩ :=
      exists_unitStartsFrom_eq_cons tail (before + units (content ++ terminator))
    by_cases hfits : before + units (content ++ terminator) ≤ offset
    · -- the whole first line fits, so the walk goes on behind it
      obtain ⟨line, lineBefore, here, hline, hlineBefore, hle, hordered, hslice, hwalk⟩ :=
        ih (past ++ (content ++ terminator))
          (by simp only [hstart, bytes_append]; omega) hfits
      have hindex : lineOfUnits (before :: unitStartsFrom (before + units (content ++ terminator))
            rest lines) offset =
          lineOfUnits (unitStartsFrom (before + units (content ++ terminator)) rest lines) offset
            + 1 := by
        rw [hmore]
        exact lineOfUnits_cons_of_le hbefore hfits
      refine ⟨line, lineBefore, here, ?_, ?_, hle, hordered, ?_, ?_⟩
      · rw [hstarts, hindex]
        exact hline
      · rw [hstarts, hindex]
        exact hlineBefore
      · rwa [List.append_assoc past] at hslice
      · have hrest : offset - before - units (content ++ terminator) =
            offset - (before + units (content ++ terminator)) := by omega
        rw [fitUnits_append_of_le rest (by omega), hrest, bytes_append, hwalk, bytes_append]
        omega
    · -- the walk ends inside the first line
      have hindex : lineOfUnits (before :: unitStartsFrom (before + units (content ++ terminator))
            rest lines) offset = 0 := by
        rw [hmore]
        exact lineOfUnits_cons_of_lt hbefore (by omega)
      refine ⟨⟨start, start + bytes content, start + bytes content + bytes terminator⟩, before,
        content ++ terminator, ?_, ?_, hbefore, ?_, ?_, ?_⟩
      · rw [hstarts, hindex]
        rfl
      · rw [hstarts, hindex]
        rfl
      · exact Nat.le_add_right_of_le (Nat.le_add_right _ _)
      · have hslice := slice?_append past (content ++ terminator) rest
        rwa [bytes_append, ← hstart, ← Nat.add_assoc, List.append_assoc past] at hslice
      · rw [fitUnits_append_of_lt rest (by omega)]

/-! ## Both ways of the table -/

/-- The byte offset of an offset in code units is the length of the longest
beginning that fits. -/
theorem offsetOfUnits_ofChars (text : List Char) (offset : Nat) :
    (ofChars text).offsetOfUnits offset = bytes (fitUnits offset text) := by
  unfold offsetOfUnits
  cases hascii : isAscii text with
  | true =>
    have htable : (ofChars text).ascii = true := hascii
    rw [if_pos htable, bytes_fitUnits_of_isAscii hascii]
    rfl
  | false =>
    have htable : (ofChars text).ascii = false := hascii
    obtain ⟨line, before, here, hline, hbefore, -, -, hslice, hwalk⟩ :=
      exists_line_of_units (scan_tiled text) [] rfl (Nat.zero_le offset)
    have hindex : (ofChars text).lines[lineOfUnits (ofChars text).unitStarts offset]? = some line :=
      hline
    have hstart : (ofChars text).unitStarts[lineOfUnits (ofChars text).unitStarts offset]? =
        some before := hbefore
    unfold lineOfUnits at hindex hstart
    have hpart : slice line.start line.next (ofChars text).text = here := by
      rw [slice]
      exact congrArg (Option.getD · []) hslice
    simp only [htable, hindex, hstart, advance, hpart, Bool.false_eq_true, if_false]
    rw [Nat.sub_zero, Nat.zero_add] at hwalk
    exact hwalk

/-- The offset of a place between two characters, given by the units before
it, is the number of bytes before it. -/
theorem offsetOfUnits_units (before after : List Char) :
    (ofChars (before ++ after)).offsetOfUnits (units before) = bytes before := by
  rw [offsetOfUnits_ofChars, fitUnits_units_append]

end LintLayer.LineTable
