import LintLayer.Proofs.LineTable.Pieces

/-!
# Offsets of lines and columns

`offset?` maps a line and a column of the analyzer to a byte offset and keeps
the offset inside the text.  `Holds.offset?_eq` gives it in one equation for
every line from one on: the start of the line, and then the beginning of its
content that the column reaches.  A line past the end starts at the end and has
no content, so the two ways to overshoot are one.

That the offset is the greatest boundary of its line, that it grows with the
position, and that first columns are the starts of their lines all follow from
this equation and from the order of the starts (`startOf_mono`,
`Lined.startOf_lt`).
-/

namespace LintLayer.LineTable

open Text

variable {table : LineTable} {pieces : List Piece}

/-! ## The walk in a line -/

/-- The beginning of a content that a column reaches.  A missing column reaches
all of it. -/
def upTo (column : Option UInt32) (content : List Char) : List Char :=
  match column with
  | none => content
  | some column => fitUnits (column.toNat - 1) content

/-- The order of columns.  A missing column comes last. -/
def columnLE : Option UInt32 → Option UInt32 → Prop
  | _, none => True
  | none, some _ => False
  | some column, some later => column ≤ later

theorem bytes_fitUnits_le (n : Nat) (cs : List Char) : bytes (fitUnits n cs) ≤ bytes cs := by
  have h := offsetOfUnits_le_bytes cs n
  rwa [offsetOfUnits_ofChars] at h

theorem bytes_fitUnits_mono {m n : Nat} (hle : m ≤ n) (cs : List Char) :
    bytes (fitUnits m cs) ≤ bytes (fitUnits n cs) := by
  have h := monotone_offsetOfUnits cs hle
  rwa [offsetOfUnits_ofChars, offsetOfUnits_ofChars] at h

theorem bytes_upTo_mono {column later : Option UInt32} (hle : columnLE column later)
    (content : List Char) : bytes (upTo column content) ≤ bytes (upTo later content) := by
  cases later with
  | none =>
    cases column with
    | none => exact Nat.le_refl _
    | some column => exact bytes_fitUnits_le _ content
  | some later =>
    cases column with
    | none => exact absurd hle id
    | some column =>
      have hnat : column.toNat ≤ later.toNat := hle
      exact bytes_fitUnits_mono (by omega) content

theorem bytes_upTo_le (column : Option UInt32) (content : List Char) :
    bytes (upTo column content) ≤ bytes content :=
  bytes_upTo_mono (show columnLE column none by cases column <;> trivial) content

/-- Both ways to walk in a part of the text end behind the longest beginning that
fits. -/
theorem advance_eq (hascii : table.ascii = true → isAscii table.text = true)
    {before here after : List Char} (htext : table.text = before ++ here ++ after) (units : Nat) :
    table.advance (bytes before) (bytes before + bytes here) units =
      bytes before + bytes (fitUnits units here) := by
  unfold advance
  split
  · rename_i hshort
    have hplain : isAscii here = true := by
      have hall := hascii hshort
      simp only [htext, isAscii, List.all_append, Bool.and_eq_true] at hall
      exact hall.1.2
    rw [bytes_fitUnits_of_isAscii hplain]
    omega
  · rw [htext, slice_append]

/-! ## The offset of a position -/

theorem Holds.exists_last (h : Holds table pieces) :
    ∃ last, table.lines.getLast? = some last ∧ last.stop = bytes (joined pieces) := by
  have hpos := h.length_pos
  obtain ⟨last, hlast, -, hstop⟩ := h.exists_line (show pieces.length - 1 < pieces.length by omega)
  refine ⟨last, ?_, ?_⟩
  · rw [List.getLast?_eq_getElem?, ← hlast, h.lines_eq, length_linesOf]
  · rw [hstop, h.lined.startOf_add_content_last (by omega)]

/-- A line number counts from one, or it is missing. -/
theorem line_cases (line : Option UInt32) :
    (line = none ∨ line = some 0) ∨ ∃ number, line = some number ∧ 1 ≤ number.toNat := by
  cases line with
  | none => exact .inl (.inl rfl)
  | some line =>
    rcases Nat.eq_zero_or_pos line.toNat with hzero | hpos
    · exact .inl (.inr (congrArg some (UInt32.toNat_inj.mp hzero)))
    · exact .inr ⟨line, rfl, hpos⟩

theorem offset?_eq_none (table : LineTable) {line : Option UInt32}
    (hline : line = none ∨ line = some 0) (column : Option UInt32) :
    table.offset? line column = none := by
  rcases hline with rfl | rfl <;> rfl

/-- The offset of a line from one on, also past the end. -/
theorem Holds.offset?_eq (h : Holds table pieces) {line : UInt32} (hline : 1 ≤ line.toNat)
    (column : Option UInt32) :
    table.offset? (some line) column =
      some (startOf pieces (line.toNat - 1) +
        bytes (upTo column (contentOf pieces (line.toNat - 1)))) := by
  have hzero : line ≠ 0 := by
    rintro rfl
    simp at hline
  simp only [offset?, if_neg hzero]
  rcases Nat.lt_or_ge (line.toNat - 1) pieces.length with hindex | hindex
  · obtain ⟨first, piece, rest, hpieces, hlength⟩ := exists_split hindex
    subst hpieces
    rw [← hlength, h.getElem?_lines, startOf_split, contentOf_split]
    cases column with
    | none => rfl
    | some column =>
      exact congrArg some (advance_eq h.plain_of_ascii h.text_split _)
  · obtain ⟨last, hlast, hstop⟩ := h.exists_last
    rw [h.getElem?_eq_none hindex, startOf_of_length_le hindex, contentOf_of_length_le hindex]
    cases column <;> simp [lastStop, hlast, hstop, upTo, fitUnits, bytes]

/-- The first column of a line of the text is its start. -/
theorem Holds.offset?_first_column (h : Holds table pieces) {line : UInt32}
    (hline : 1 ≤ line.toNat) :
    table.offset? (some line) (some 1) = some (startOf pieces (line.toNat - 1)) := by
  have hnone : ∀ content, upTo (some 1) content = [] := fitUnits_zero
  rw [h.offset?_eq hline, hnone, bytes, Nat.add_zero]

/-- The order of positions, by line and then by column. -/
def positionLE (position later : UInt32 × Option UInt32) : Prop :=
  position.1 < later.1 ∨ position.1 = later.1 ∧ columnLE position.2 later.2

/-- A column of a later line is not reached by any column of an earlier one. -/
theorem offset_le_of_positionLE (pieces : List Piece) {position later : UInt32 × Option UInt32}
    (hline : 1 ≤ position.1.toNat) (hle : positionLE position later) :
    startOf pieces (position.1.toNat - 1) +
        bytes (upTo position.2 (contentOf pieces (position.1.toNat - 1))) ≤
      startOf pieces (later.1.toNat - 1) +
        bytes (upTo later.2 (contentOf pieces (later.1.toNat - 1))) := by
  rcases hle with hlt | ⟨heq, hcolumn⟩
  · have hnat : position.1.toNat < later.1.toNat := hlt
    have hreached := bytes_upTo_le position.2 (contentOf pieces (position.1.toNat - 1))
    have hends := startOf_add_content_le pieces (position.1.toNat - 1)
    have hstarts := startOf_mono pieces
      (show position.1.toNat - 1 + 1 ≤ later.1.toNat - 1 by omega)
    omega
  · rw [← heq]
    have hreached := bytes_upTo_mono hcolumn (contentOf pieces (position.1.toNat - 1))
    omega

/-- `within` bytes of a content is where a column leads: to the greatest boundary
that its code units reach, or to the end when there is no column. -/
def AtColumn (content : List Char) (column : Option UInt32) (within : Nat) : Prop :=
  match column with
  | none => within = bytes content
  | some column => IsGreatest (boundariesWithin content (max column.toNat 1 - 1)) within

theorem atColumn_upTo (column : Option UInt32) (content : List Char) :
    AtColumn content column (bytes (upTo column content)) := by
  cases column with
  | none => rfl
  | some column =>
    have hunits : max column.toNat 1 - 1 = column.toNat - 1 := by omega
    have h := isGreatest_offsetOfUnits content (column.toNat - 1)
    rw [offsetOfUnits_ofChars] at h
    rw [AtColumn, hunits]
    exact h

/-- Without the short cut the table has the same offsets. -/
theorem Holds.offset?_walking (h : Holds table pieces) (line column : Option UInt32) :
    ({ table with ascii := false } : LineTable).offset? line column =
      table.offset? line column := by
  have hwalking : Holds { table with ascii := false } pieces :=
    ⟨h.lined, h.text_eq, h.lines_eq, fun hascii => absurd hascii Bool.false_ne_true⟩
  rcases line_cases line with hline | ⟨line, rfl, hline⟩
  · rw [offset?_eq_none _ hline, offset?_eq_none _ hline]
  · rw [hwalking.offset?_eq hline, h.offset?_eq hline]

/-! ## The line of an offset -/

/-- The number of the line, counted from zero, that a line number leads to. -/
def clampedIndex (table : LineTable) (line : UInt32) : Nat :=
  min (max line.toNat 1) table.lineCount - 1

theorem clampedIndex_of_le_one {line : UInt32} (hle : line.toNat ≤ 1) :
    table.clampedIndex line = 0 := by
  rw [clampedIndex]
  omega

theorem Holds.clampedIndex_lt (h : Holds table pieces) (line : UInt32) :
    table.clampedIndex line < pieces.length := by
  have hpos := h.length_pos
  rw [clampedIndex, h.lineCount_eq]
  omega

/-- The offset of a position, also of a missing one, lies in the line that its line
number leads to. -/
theorem Holds.offset_in_line (h : Holds table pieces) (line column : Option UInt32) :
    let index := table.clampedIndex (line.getD 1)
    startOf pieces index ≤ (table.offset? line column).getD 0 ∧
      (table.offset? line column).getD 0 ≤
        startOf pieces index + bytes (contentOf pieces index) := by
  intro index
  rcases line_cases line with hline | ⟨line, rfl, hline⟩
  · -- without a line number both are the start of the text
    have hindex : index = 0 := by
      apply clampedIndex_of_le_one
      rcases hline with rfl | rfl <;> decide
    have hstart : startOf pieces 0 = 0 := rfl
    rw [offset?_eq_none table hline, hindex, hstart]
    exact ⟨Nat.le_refl 0, Nat.zero_le _⟩
  · have hcount := h.lineCount_eq
    have hindex : index = min line.toNat pieces.length - 1 := by
      show min (max line.toNat 1) table.lineCount - 1 = _
      rw [Nat.max_eq_left hline, hcount]
    rw [h.offset?_eq hline, Option.getD_some]
    rcases Nat.lt_or_ge (line.toNat - 1) pieces.length with hin | hpast
    · have hreached := bytes_upTo_le column (contentOf pieces (line.toNat - 1))
      rw [show index = line.toNat - 1 by omega]
      omega
    · -- past the end the offset is the end of the last line
      have hpos := h.length_pos
      have hend := h.lined.startOf_add_content_last (show index + 1 = pieces.length by omega)
      have hnone : bytes (upTo column []) = 0 := by cases column <;> rfl
      rw [startOf_of_length_le hpast, contentOf_of_length_le hpast, hnone]
      omega

/-- The offset is not before the line and not in a later one.  The last line goes
on behind the end of the text. -/
def InLine (pieces : List Piece) (index offset : Nat) : Prop :=
  startOf pieces index ≤ offset ∧
    (index + 1 < pieces.length → offset < startOf pieces (index + 1))

theorem Lined.inLine (h : Lined pieces) {index offset : Nat}
    (hstart : startOf pieces index ≤ offset)
    (hstop : offset ≤ startOf pieces index + bytes (contentOf pieces index)) :
    InLine pieces index offset := by
  refine ⟨hstart, fun hlast => ?_⟩
  have hnext := h.startOf_add_content_lt hlast
  omega

/-- Up to the line of an offset the lines start before it, and from there on
behind it. -/
theorem InLine.startOf_le_iff {index other offset : Nat} (h : InLine pieces index offset)
    (hother : other < pieces.length) : startOf pieces other ≤ offset ↔ other ≤ index := by
  constructor
  · intro hle
    by_contra hlt
    have hnext := h.2 (show index + 1 < pieces.length by omega)
    have hmono := startOf_mono pieces (show index + 1 ≤ other by omega)
    omega
  · intro hle
    exact Nat.le_trans (startOf_mono pieces hle) h.1

theorem Lined.startOf_le_iff (h : Lined pieces) {index other offset : Nat}
    (hother : other < pieces.length) (hstart : startOf pieces index ≤ offset)
    (hstop : offset ≤ startOf pieces index + bytes (contentOf pieces index)) :
    startOf pieces other ≤ offset ↔ other ≤ index :=
  (h.inLine hstart hstop).startOf_le_iff hother

theorem length_takeWhile_of_iff {α : Type} {items : List α} {p : α → Bool} {count : Nat}
    (hcount : count ≤ items.length)
    (h : ∀ index item, items[index]? = some item → (p item = true ↔ index < count)) :
    (items.takeWhile p).length = count := by
  induction items generalizing count with
  | nil => exact (Nat.le_zero.mp hcount).symm
  | cons item items ih =>
    have hitem := h 0 item rfl
    cases count with
    | zero => simp [show p item = false by simpa using hitem]
    | succ count =>
      have hrest := ih (Nat.le_of_succ_le_succ hcount) fun index other hother => by
        rw [h (index + 1) other hother]
        omega
      simp [show p item = true from hitem.mpr (Nat.succ_pos count), hrest]

/-- The search through the starts finds the line of an offset. -/
theorem Holds.lineOf_of_inLine (h : Holds table pieces) {index offset : Nat}
    (hindex : index < pieces.length) (hin : InLine pieces index offset) :
    table.lineOf offset = index := by
  have hlength : (table.lines.takeWhile fun line => line.start ≤ offset).length = index + 1 := by
    apply length_takeWhile_of_iff
    · rw [h.lines_eq, length_linesOf]
      exact hindex
    · intro other line hline
      rw [decide_eq_true_eq, h.start_eq hline, hin.startOf_le_iff (h.lt_of_getElem? hline)]
      omega
  rw [lineOf, hlength, Nat.add_sub_cancel]

theorem Holds.lineOf_eq (h : Holds table pieces) {index offset : Nat}
    (hindex : index < pieces.length) (hstart : startOf pieces index ≤ offset)
    (hstop : offset ≤ startOf pieces index + bytes (contentOf pieces index)) :
    table.lineOf offset = index :=
  h.lineOf_of_inLine hindex (h.lined.inLine hstart hstop)

/-! ## Exact and monotone -/

/-- The offset of a line past the end is the end of the last line.  In a line of
the text it stays before the terminator, at the greatest boundary of the line that
the code units of the column reach, or at the end of the line without a column.
The short cut for plain texts changes nothing.  A later position never has a
smaller offset, and the first columns of the lines are their starts, each behind
the one before it. -/
theorem offset_exact_and_monotone (text : String) :
    let table := ofText text
    Tiled 0 text.toList table.lines ∧
      (∀ (line : UInt32) (column : Option UInt32), table.lineCount < line.toNat →
        ∃ last, table.lines.getLast? = some last ∧
          table.offset? (some line) column = some last.stop) ∧
      (∀ (line : UInt32) (column : Option UInt32), 1 ≤ line.toNat →
        line.toNat ≤ table.lineCount →
        ∃ found piece within, table.lines[line.toNat - 1]? = some found ∧
          table.piece? (line.toNat - 1) = some piece ∧
          table.offset? (some line) column = some (found.start + within) ∧
          found.start + within ≤ found.stop ∧ AtColumn piece.content column within) ∧
      (∀ line column : Option UInt32,
        ({ table with ascii := false } : LineTable).offset? line column =
          table.offset? line column) ∧
      (∀ position later : UInt32 × Option UInt32, 1 ≤ position.1.toNat →
        positionLE position later →
        ∃ offset laterOffset, table.offset? (some position.1) position.2 = some offset ∧
          table.offset? (some later.1) later.2 = some laterOffset ∧ offset ≤ laterOffset) ∧
      (∀ line : UInt32, 1 ≤ line.toNat → line.toNat ≤ table.lineCount →
        ∃ start, table.offset? (some line) (some 1) = some start ∧
          table.lineStart? (line.toNat - 1) = some start ∧
          ∀ later : UInt32, line < later → later.toNat ≤ table.lineCount →
            ∃ laterStart, table.offset? (some later) (some 1) = some laterStart ∧
              start < laterStart) := by
  intro table
  obtain ⟨pieces, hholds⟩ : ∃ pieces, Holds table pieces := exists_holds text.toList
  have hcount := hholds.lineCount_eq
  refine ⟨scan_tiled text.toList, fun line column hpast => ?_, fun line column hline hin => ?_,
    hholds.offset?_walking, fun position later hline hle => ?_, fun line hline hin => ?_⟩
  · obtain ⟨last, hlast, hstop⟩ := hholds.exists_last
    refine ⟨last, hlast, ?_⟩
    rw [hholds.offset?_eq (by omega), startOf_of_length_le (by omega),
      contentOf_of_length_le (by omega), hstop]
    cases column <;> rfl
  · have hindex : line.toNat - 1 < pieces.length := by omega
    obtain ⟨found, hfound, hstart, hstop⟩ := hholds.exists_line hindex
    obtain ⟨piece, hpiece, hcontent⟩ := hholds.exists_piece hindex
    have hreached := bytes_upTo_le column (contentOf pieces (line.toNat - 1))
    refine ⟨found, piece, _, hfound, hpiece, ?_, ?_, atColumn_upTo column piece.content⟩
    · rw [hholds.offset?_eq hline, hstart, hcontent]
    · rw [hstart, hstop, hcontent]
      omega
  · have hlater : 1 ≤ later.1.toNat := by
      rcases hle with hlt | ⟨heq, -⟩
      · have hnat : position.1.toNat < later.1.toNat := hlt
        omega
      · rwa [← heq]
    exact ⟨_, _, hholds.offset?_eq hline _, hholds.offset?_eq hlater _,
      offset_le_of_positionLE pieces hline hle⟩
  · refine ⟨_, hholds.offset?_first_column hline, hholds.lineStart?_eq (by omega),
      fun later hlater hend => ?_⟩
    have hnat : line.toNat < later.toNat := hlater
    exact ⟨_, hholds.offset?_first_column (by omega), hholds.lined.startOf_lt (by omega) (by omega)⟩

/-- Half of a surrogate pair in the second line, a line past the end, and a missing
column in front of column zero of the next line. -/
theorem offset_exact_and_monotone_pair :
    let table := ofText "é\r\n😀;"
    table.lineCount = 2 ∧
      (∃ last, table.lines.getLast? = some last ∧
        table.offset? (some 9) (some 1) = some last.stop) ∧
      (∃ found piece within, table.lines[1]? = some found ∧ table.piece? 1 = some piece ∧
        table.offset? (some 2) (some 2) = some (found.start + within) ∧
        found.start + within ≤ found.stop ∧ AtColumn piece.content (some 2) within) ∧
      positionLE (1, none) (2, some 0) ∧
      (∃ offset laterOffset, table.offset? (some 1) none = some offset ∧
        table.offset? (some 2) (some 0) = some laterOffset ∧ offset ≤ laterOffset) ∧
      ∃ start, table.offset? (some 1) (some 1) = some start ∧ table.lineStart? 0 = some start ∧
        ∃ laterStart, table.offset? (some 2) (some 1) = some laterStart ∧
          start < laterStart := by
  intro table
  have hcount : table.lineCount = 2 := by decide
  have hbefore : positionLE (1, none) (2, some 0) := .inl (by decide)
  obtain ⟨-, hpast, hline, -, hmono, hfirst⟩ := offset_exact_and_monotone "é\r\n😀;"
  obtain ⟨start, hstart, hlineStart, hlater⟩ := hfirst 1 (by decide) (by decide)
  exact ⟨hcount, hpast 9 (some 1) (by decide), hline 2 (some 2) (by decide) (by decide), hbefore,
    hmono (1, none) (2, some 0) (by decide) hbefore,
    start, hstart, hlineStart, hlater 2 (by decide) (by decide)⟩

end LintLayer.LineTable
