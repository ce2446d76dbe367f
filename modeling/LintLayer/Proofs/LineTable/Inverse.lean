import LintLayer.Proofs.LineTable.Offset
import LintLayer.Proofs.Text.Utf16
import Mathlib.Data.Nat.PSub
import Mathlib.Order.Bounds.Basic

/-!
# Byte offsets and code units are inverse

`offsetOfUnits` undoes the measuring of a text in code units: its answer is the
greatest boundary that the units reach (`isGreatest_offsetOfUnits`).  That it
is monotone, stays in the text and gives back every boundary follows from
this alone.

The table is read by subtractions, lookups and slices, which have a value of
last resort in `offsetOfUnits`.  `offsetOfUnits?` takes the same steps and has
no answer when one of them has none.  It always has one, and the way through
the lines has it also for a plain text, which takes a short cut
(`throughLines?_ofChars`).
-/

namespace LintLayer.LineTable

open Text

/-! ## The greatest boundary -/

/-- The byte offsets of the boundaries with at most `offset` code units before
them. -/
def boundariesWithin (text : List Char) (offset : Nat) : Set Nat :=
  {b | ∃ before after, text = before ++ after ∧ bytes before = b ∧
    (utf16 before).length ≤ offset}

theorem isGreatest_offsetOfUnits (text : List Char) (offset : Nat) :
    IsGreatest (boundariesWithin text offset) ((ofChars text).offsetOfUnits offset) := by
  rw [offsetOfUnits_ofChars]
  constructor
  · obtain ⟨rest, hrest⟩ := exists_fitUnits_append offset text
    exact ⟨fitUnits offset text, rest, hrest, rfl, by
      rw [length_utf16]
      exact units_fitUnits_le offset text⟩
  · rintro b ⟨before, after, rfl, rfl, hunits⟩
    rw [length_utf16] at hunits
    rw [fitUnits_append_of_le after hunits, bytes_append]
    exact Nat.le_add_right _ _

theorem boundariesWithin_mono (text : List Char) {first second : Nat} (hle : first ≤ second) :
    boundariesWithin text first ⊆ boundariesWithin text second := by
  rintro b ⟨before, after, htext, hbytes, hunits⟩
  exact ⟨before, after, htext, hbytes, Nat.le_trans hunits hle⟩

/-- More units never lead to an earlier offset. -/
theorem monotone_offsetOfUnits (text : List Char) : Monotone (ofChars text).offsetOfUnits :=
  fun _ _ hle => (isGreatest_offsetOfUnits text _).mono (isGreatest_offsetOfUnits text _)
    (boundariesWithin_mono text hle)

theorem offsetOfUnits_le_bytes (text : List Char) (offset : Nat) :
    (ofChars text).offsetOfUnits offset ≤ bytes text := by
  obtain ⟨before, after, htext, hbytes, -⟩ := (isGreatest_offsetOfUnits text offset).1
  rw [← hbytes, htext, bytes_append]
  exact Nat.le_add_right _ _

/-! ## The steps through the table -/

/-- The part between two offsets.  There is none when they are in the wrong
order, past the end or inside a character. -/
def part? (start stop : Nat) (text : List Char) : Option (List Char) :=
  if start ≤ stop then slice? start stop text else none

/-- The longest beginning of at most `n` code units, with every subtraction
checked. -/
def fitUnits? : Nat → List Char → Option (List Char)
  | _, [] => some []
  | n, c :: cs =>
    if unitWidth c ≤ n then do
      let left ← n.psub (unitWidth c)
      return c :: (← fitUnits? left cs)
    else some []

/-- The byte offset of an offset in code units, read through the lines. -/
def throughLines? (table : LineTable) (offset : Nat) : Option Nat := do
  let index := lineOfUnits table.unitStarts offset
  let line ← table.lines[index]?
  let before ← table.unitStarts[index]?
  let left ← offset.psub before
  let here ← part? line.start line.next table.text
  return line.start + bytes (← fitUnits? left here)

/-- The byte offset of an offset in code units, if every subtraction, lookup
and slice on the way has a value. -/
def offsetOfUnits? (table : LineTable) (offset : Nat) : Option Nat :=
  if table.ascii then some (min offset (bytes table.text)) else table.throughLines? offset

theorem psub_of_le {m n : Nat} (h : n ≤ m) : m.psub n = some (m - n) :=
  Nat.psub_eq_some.mpr (Nat.sub_add_cancel h)

theorem fitUnits?_eq (n : Nat) (cs : List Char) : fitUnits? n cs = some (fitUnits n cs) := by
  induction cs generalizing n with
  | nil => rfl
  | cons c cs ih =>
    rw [fitUnits?, fitUnits]
    split
    · rename_i hfits
      rw [psub_of_le hfits]
      simp [ih]
    · rfl

/-- Read through its lines, the table of every text has the answer, also where
the short cut gives it. -/
theorem throughLines?_ofChars (text : List Char) (offset : Nat) :
    (ofChars text).throughLines? offset = some ((ofChars text).offsetOfUnits offset) := by
  obtain ⟨line, before, here, hline, hbefore, hle, hordered, hslice, hwalk⟩ :=
    exists_line_of_units (scan_tiled text) [] rfl (Nat.zero_le offset)
  rw [Nat.sub_zero, Nat.zero_add] at hwalk
  have hpart : part? line.start line.next (ofChars text).text = some here := by
    rw [part?, if_pos hordered]
    exact hslice
  have hline' : (ofChars text).lines[lineOfUnits (ofChars text).unitStarts offset]? = some line :=
    hline
  have hbefore' : (ofChars text).unitStarts[lineOfUnits (ofChars text).unitStarts offset]? =
      some before := hbefore
  rw [offsetOfUnits_ofChars, ← hwalk]
  simp only [throughLines?, hline', hbefore', psub_of_le hle, hpart, fitUnits?_eq,
    Option.bind_eq_bind, Option.bind_some, Option.pure_def]

theorem offsetOfUnits?_ofChars (text : List Char) (offset : Nat) :
    (ofChars text).offsetOfUnits? offset = some ((ofChars text).offsetOfUnits offset) := by
  rw [offsetOfUnits?]
  split
  · rename_i hascii
    rw [offsetOfUnits, if_pos hascii]
  · exact throughLines?_ofChars text offset

/-! ## The table itself -/

theorem le_of_mem_unitStartsFrom {start : Nat} {text : List Char} {lines : List Line}
    (htiled : Tiled start text lines) {before units : Nat}
    (hunits : units ∈ unitStartsFrom before text lines) : before ≤ units := by
  induction htiled generalizing before with
  | @last start content hplain =>
    rw [unitStartsFrom_last, List.mem_singleton] at hunits
    omega
  | @line start content terminator rest lines hplain hterminator tail ih =>
    rw [unitStartsFrom_line before _ lines (content ++ terminator) rest
      (by simp only [bytes_append]; omega), List.mem_cons] at hunits
    rcases hunits with rfl | hunits
    · exact Nat.le_refl _
    · exact Nat.le_trans (Nat.le_add_right _ _) (ih hunits)

theorem Terminator.units_pos {terminator rest : List Char} (h : Terminator terminator rest) :
    0 < units terminator := by
  cases h <;> decide

/-- Each line starts after more units than the one before it, so a search by
halves finds the line. -/
theorem pairwise_unitStartsFrom {start : Nat} {text : List Char} {lines : List Line}
    (htiled : Tiled start text lines) (before : Nat) :
    (unitStartsFrom before text lines).Pairwise (· < ·) := by
  induction htiled generalizing before with
  | @last start content hplain =>
    rw [unitStartsFrom_last]
    exact List.pairwise_singleton _ _
  | @line start content terminator rest lines hplain hterminator tail ih =>
    rw [unitStartsFrom_line before _ lines (content ++ terminator) rest
      (by simp only [bytes_append]; omega)]
    refine List.pairwise_cons.mpr ⟨fun next hnext => ?_, ih _⟩
    have hle := le_of_mem_unitStartsFrom tail hnext
    have hpos := hterminator.units_pos
    rw [units_append] at hle
    omega

/-- Every line covers a part of the text. -/
theorem exists_part?_of_mem {start : Nat} {text : List Char} {lines : List Line}
    (htiled : Tiled start text lines) (past : List Char) (hstart : start = bytes past)
    {line : Line} (hline : line ∈ lines) :
    ∃ here, part? line.start line.next (past ++ text) = some here := by
  induction htiled generalizing past with
  | @last start content hplain =>
    have hslice := slice?_append past content []
    rw [List.append_nil, ← hstart] at hslice
    rw [List.mem_singleton.mp hline]
    exact ⟨content, by rw [part?, if_pos (Nat.le_add_right _ _), hslice]⟩
  | @line start content terminator rest lines hplain hterminator tail ih =>
    rcases List.mem_cons.mp hline with rfl | hline
    · have hslice := slice?_append past (content ++ terminator) rest
      rw [bytes_append, ← hstart, ← Nat.add_assoc, List.append_assoc past] at hslice
      refine ⟨content ++ terminator, ?_⟩
      rw [part?, if_pos (Nat.le_add_right_of_le (Nat.le_add_right _ _)), hslice]
    · obtain ⟨here, hhere⟩ := ih (past ++ (content ++ terminator))
        (by simp only [hstart, bytes_append]; omega) hline
      exact ⟨here, by rwa [List.append_assoc past] at hhere⟩

/-! ## The inverse -/

/-- The byte offset of an offset in code units is the greatest boundary with
at most that many units before it.  So it grows with the units, stays inside
the text, and from the units before a boundary it leads back to this boundary.
No step fails: the lines cover parts of the text and start after more and more
units, and the offset is found both by the short cut, where it is taken, and
through the lines. -/
theorem offsetOfUnits_inverse (text : String) (offset : Nat) :
    let table := ofText text
    IsGreatest (boundariesWithin text.toList offset) (table.offsetOfUnits offset) ∧
      Monotone table.offsetOfUnits ∧
      table.offsetOfUnits offset ≤ bytes text.toList ∧
      (∀ before after, text.toList = before ++ after →
        table.offsetOfUnits (utf16 before).length = bytes before) ∧
      (∀ line ∈ table.lines, ∃ here, part? line.start line.next text.toList = some here) ∧
      table.unitStarts.Pairwise (· < ·) ∧
      table.offsetOfUnits? offset = some (table.offsetOfUnits offset) ∧
      table.throughLines? offset = some (table.offsetOfUnits offset) := by
  intro table
  refine ⟨isGreatest_offsetOfUnits _ offset, monotone_offsetOfUnits _,
    offsetOfUnits_le_bytes _ offset, fun before after htext => ?_, fun line hline => ?_,
    pairwise_unitStartsFrom (scan_tiled _) 0, offsetOfUnits?_ofChars _ offset,
    throughLines?_ofChars _ offset⟩
  · rw [length_utf16, show table = ofChars (before ++ after) from htext ▸ rfl,
      offsetOfUnits_units]
  · exact exists_part?_of_mem (scan_tiled text.toList) [] rfl hline

/-- A pair of surrogates behind a line break.  The offset in its middle is that
of its start, and the one behind it leads back to the end of the character. -/
theorem offsetOfUnits_inverse_pair :
    let table := ofText "é\r\n😀;"
    "é\r\n😀;".toList = ['é', '\r', '\n', '😀'] ++ [';'] ∧
      (utf16 ['é', '\r', '\n', '😀']).length = 5 ∧ table.offsetOfUnits 5 = 8 ∧
      table.offsetOfUnits 4 = 4 ∧ 4 ∈ boundariesWithin "é\r\n😀;".toList 4 := by
  intro table
  have htext : "é\r\n😀;".toList = ['é', '\r', '\n', '😀'] ++ [';'] := by decide
  have hunits : (utf16 ['é', '\r', '\n', '😀']).length = 5 := by decide
  obtain ⟨hgreatest, -, -, hback, -⟩ := offsetOfUnits_inverse "é\r\n😀;" 4
  have hend := hback _ _ htext
  rw [hunits] at hend
  have hmiddle : table.offsetOfUnits 4 = 4 := by decide
  exact ⟨htext, hunits, hend.trans (by decide), hmiddle, hmiddle ▸ hgreatest.1⟩

end LintLayer.LineTable
