import LintLayer.Proofs.LineTable.Uniqueness

/-!
# The printed position of an offset

`position` turns a byte offset into a line and a column in characters, and
`offset?` a line and a column in code units into a byte offset.  The two are
written apart from each other.

* `isGreatest_fitBytes`: before anything else, `position` goes back to the
  greatest boundary that is not behind the offset.
* `Holds.position_eq`: the position of a boundary is given by the text in front
  of it, as the lines that are over and the beginning of the line that is not.
* From this equation follow that a reported position is printed again
  (`Holds.position_offset?`), that no step of `position` fails
  (`Holds.position?_eq`), and that a position belongs to one boundary
  (`Holds.position_inj`).
-/

namespace LintLayer

/-! ## Beginnings of a text -/

namespace Text

/-- The boundaries of a text up to an offset.  An offset past the end is the
end. -/
def boundariesUpTo (text : List Char) (offset : Nat) : Set Nat :=
  {b | Boundary text b ∧ b ≤ min offset (bytes text)}

/-- The longest beginning that fits ends at the greatest boundary. -/
theorem isGreatest_fitBytes (text : List Char) (offset : Nat) :
    IsGreatest (boundariesUpTo text offset) (bytes (fitBytes offset text)) := by
  obtain ⟨rest, hrest⟩ := exists_fitBytes_append offset text
  have hboundary : Boundary text (bytes (fitBytes offset text)) := ⟨_, rest, hrest, rfl⟩
  constructor
  · exact ⟨hboundary, Nat.le_min.mpr ⟨bytes_fitBytes_le offset text, hboundary.le_bytes⟩⟩
  · rintro b ⟨⟨before, after, rfl, rfl⟩, hle⟩
    rw [fitBytes_append_of_le after (by omega), bytes_append]
    exact Nat.le_add_right _ _

/-- The lengths, in characters, of the beginnings of a text with at most `n` code
units. -/
def beginningsWithin (cs : List Char) (n : Nat) : Set Nat :=
  {k | ∃ beginning, beginning <+: cs ∧ (utf16 beginning).length ≤ n ∧ beginning.length = k}

theorem isGreatest_length_fitUnits (n : Nat) (cs : List Char) :
    IsGreatest (beginningsWithin cs n) (fitUnits n cs).length := by
  constructor
  · obtain ⟨rest, hrest⟩ := exists_fitUnits_append n cs
    refine ⟨fitUnits n cs, ⟨rest, hrest.symm⟩, ?_, rfl⟩
    rw [length_utf16]
    exact units_fitUnits_le n cs
  · rintro k ⟨beginning, ⟨rest, rfl⟩, hunits, rfl⟩
    rw [length_utf16] at hunits
    rw [fitUnits_append_of_le rest hunits, List.length_append]
    exact Nat.le_add_right _ _

/-- Without surrogate pairs a code unit is a character. -/
theorem length_fitUnits_of_single {cs : List Char} (hsingle : ∀ c ∈ cs, c.toNat < 0x10000)
    (n : Nat) : (fitUnits n cs).length = min n cs.length := by
  induction cs generalizing n with
  | nil => simp [fitUnits]
  | cons c cs ih =>
    have hwidth : unitWidth c = 1 := if_pos (hsingle c List.mem_cons_self)
    have hrest := ih (fun d hd => hsingle d (List.mem_cons_of_mem c hd)) (n - 1)
    rw [fitUnits, hwidth]
    split
    · rw [List.length_cons, List.length_cons, hrest]
      omega
    · rw [List.length_nil]
      omega

end Text

namespace LineTable

open Text

variable {table : LineTable} {pieces : List Piece}

/-! ## The position of a boundary -/

/-- The text before a boundary is made of the lines that are over there and of the
beginning of the line that is not.  This beginning is the part that `position`
counts. -/
theorem Holds.exists_beginning (h : Holds table pieces) (offset : Nat) :
    let reached := fitBytes offset table.text
    let index := table.lineOf (bytes reached)
    ∃ here, reached = joined (pieces.take index) ++ here ∧
      part? ((table.lineStart? index).getD 0) (bytes reached) table.text = some here := by
  intro reached index
  obtain ⟨hindex, hstart, -⟩ := h.lineOf_spec (bytes reached)
  obtain ⟨after, htext⟩ := exists_fitBytes_append offset table.text
  have hlines : joined (pieces.take index) ++ joined (pieces.drop index) = reached ++ after := by
    rw [← joined_append, List.take_append_drop, ← h.text_eq]
    exact htext
  obtain ⟨here, hhere, -⟩ := exists_append_of_bytes_le hlines hstart
  refine ⟨here, hhere, ?_⟩
  have hpart := part?_append (joined (pieces.take index)) here after
  rw [← bytes_append, ← hhere] at hpart
  rw [h.lineStart?_eq hindex, Option.getD_some, htext]
  exact hpart

/-- The position is the line that is not over and one more than its characters. -/
theorem Holds.position_eq (h : Holds table pieces) {offset : Nat} {here : List Char}
    (hhere : fitBytes offset table.text =
      joined (pieces.take (table.lineOf (bytes (fitBytes offset table.text)))) ++ here) :
    table.position offset =
      (table.lineOf (bytes (fitBytes offset table.text)) + 1, here.length + 1) := by
  obtain ⟨found, hfound, hpart⟩ := h.exists_beginning offset
  have hsame : found = here := List.append_cancel_left (hfound.symm.trans hhere)
  rw [position, slice_of_part? hpart, hsame]

/-- A position belongs to one boundary. -/
theorem Holds.position_inj (h : Holds table pieces) {first second : Nat} :
    table.position first = table.position second ↔
      bytes (fitBytes first table.text) = bytes (fitBytes second table.text) := by
  obtain ⟨here, hhere, -⟩ := h.exists_beginning first
  obtain ⟨here', hhere', -⟩ := h.exists_beginning second
  obtain ⟨after, htext⟩ := exists_fitBytes_append first table.text
  obtain ⟨after', htext'⟩ := exists_fitBytes_append second table.text
  constructor
  · intro hsame
    rw [h.position_eq hhere, h.position_eq hhere', Prod.mk.injEq, Nat.add_right_cancel_iff,
      Nat.add_right_cancel_iff] at hsame
    obtain ⟨hline, hcolumn⟩ := hsame
    -- both go on behind the same lines, for the same number of characters
    rw [← hline] at hhere'
    have hbehind : here ++ after = here' ++ after' := by
      apply List.append_cancel_left
      rw [← List.append_assoc, ← hhere, ← htext, ← List.append_assoc, ← hhere', ← htext']
    rw [hhere, hhere', List.append_inj_left hbehind hcolumn]
  · intro hsame
    have hfit : fitBytes first table.text = fitBytes second table.text :=
      (append_inj_of_bytes_eq (htext.symm.trans htext') hsame).1
    rw [position, position, hfit]

/-! ## A reported position -/

/-- The position of a place in the content of a line. -/
theorem Holds.position_in_line {first rest : List Piece} {piece : Piece}
    (h : Holds table (first ++ piece :: rest)) {reached after : List Char}
    (hcontent : piece.content = reached ++ after) :
    table.position (bytes (joined first ++ reached)) = (first.length + 1, reached.length + 1) := by
  have hfit : fitBytes (bytes (joined first ++ reached)) table.text = joined first ++ reached := by
    rw [h.text_split, hcontent, ← List.append_assoc (joined first), List.append_assoc _ after,
      fitBytes_bytes_append]
  have hindex : table.lineOf (bytes (joined first ++ reached)) = first.length := by
    apply h.lineOf_eq
    · rw [List.length_append, List.length_cons]
      omega
    · rw [startOf_split, bytes_append]
      omega
    · rw [startOf_split, contentOf_split, hcontent, bytes_append, bytes_append]
      omega
  have hhere : fitBytes (bytes (joined first ++ reached)) table.text =
      joined ((first ++ piece :: rest).take
        (table.lineOf (bytes (fitBytes (bytes (joined first ++ reached)) table.text)))) ++
          reached := by
    rw [hfit, hindex, List.take_left]
  rw [h.position_eq hhere, hfit, hindex]

/-- A reported line and column lead to a place in that line, behind the characters
that the column reaches. -/
theorem Holds.position_offset? (h : Holds table pieces) {line : UInt32} (hline : 1 ≤ line.toNat)
    (hcount : line.toNat ≤ table.lineCount) (column : UInt32) :
    ∃ offset, table.offset? (some line) (some column) = some offset ∧
      table.position offset =
        (line.toNat,
          (fitUnits (column.toNat - 1) (contentOf pieces (line.toNat - 1))).length + 1) := by
  rw [h.lineCount_eq] at hcount
  obtain ⟨first, piece, rest, hpieces, hlength⟩ :=
    exists_split (show line.toNat - 1 < pieces.length by omega)
  subst hpieces
  obtain ⟨after, hafter⟩ := exists_fitUnits_append (column.toNat - 1) piece.content
  refine ⟨_, h.offset?_eq hline (some column), ?_⟩
  rw [← hlength, startOf_split, contentOf_split, upTo, ← bytes_append,
    h.position_in_line hafter, show first.length + 1 = line.toNat by omega]

/-! ## The steps of the position -/

/-- The greatest boundary at or before an offset, looked for one byte at a time.
There is none when the search leaves the text. -/
def lastBoundary? (text : List Char) : Nat → Option Nat
  | 0 => if Boundary text 0 then some 0 else none
  | offset + 1 =>
    if Boundary text (offset + 1) then some (offset + 1) else lastBoundary? text offset

/-- The position of an offset, if the search for a boundary and the part behind the
start of the line have a value. -/
def position? (table : LineTable) (offset : Nat) : Option (Nat × Nat) := do
  let boundary ← lastBoundary? table.text (min offset (bytes table.text))
  let line := table.lineOf boundary
  let here ← part? ((table.lineStart? line).getD 0) boundary table.text
  return (line + 1, here.length + 1)

theorem lastBoundary?_eq {text : List Char} {offset b : Nat} (hb : Boundary text b)
    (hle : b ≤ offset) (hgreatest : ∀ other, Boundary text other → other ≤ offset → other ≤ b) :
    lastBoundary? text offset = some b := by
  induction offset with
  | zero =>
    obtain rfl : b = 0 := by omega
    rw [lastBoundary?, if_pos hb]
  | succ offset ih =>
    rw [lastBoundary?]
    split
    · rename_i hhere
      have hreached := hgreatest _ hhere (Nat.le_refl _)
      rw [show b = offset + 1 by omega]
    · rename_i hinside
      have hne : b ≠ offset + 1 := fun heq => hinside (heq ▸ hb)
      exact ih (by omega) fun other hother hless => hgreatest other hother (by omega)

/-- No step fails. -/
theorem Holds.position?_eq (h : Holds table pieces) (offset : Nat) :
    table.position? offset = some (table.position offset) := by
  obtain ⟨hboundary, hgreatest⟩ := isGreatest_fitBytes table.text offset
  have hlast : lastBoundary? table.text (min offset (bytes table.text)) =
      some (bytes (fitBytes offset table.text)) :=
    lastBoundary?_eq hboundary.1 hboundary.2 fun other hother hle => hgreatest ⟨hother, hle⟩
  obtain ⟨here, hhere, hpart⟩ := h.exists_beginning offset
  rw [h.position_eq hhere, position?, hlast]
  simp only [Option.bind_eq_bind, Option.bind_some, hpart, Option.pure_def]

/-! ## The printed position -/

/-- A line and a column of the analyzer are printed as the same line, with the
column counted in characters: one more than the longest beginning of the line has
that the code units before the column hold.  Without surrogate pairs in the line
this is the column itself, or one behind the line.

Every offset has a position, also one inside a character or past the end, and two
offsets have the same one exactly when they lead back to the same boundary. -/
theorem position_of_reported (text : String) :
    let table := ofText text
    (∀ line column : UInt32, 1 ≤ line.toNat → line.toNat ≤ table.lineCount → 1 ≤ column.toNat →
      ∃ piece offset reached, table.piece? (line.toNat - 1) = some piece ∧
        table.offset? (some line) (some column) = some offset ∧
        IsGreatest (beginningsWithin piece.content (column.toNat - 1)) reached ∧
        table.position offset = (line.toNat, reached + 1) ∧
        ((∀ c ∈ piece.content, c.toNat < 0x10000) →
          reached + 1 = min column.toNat (piece.content.length + 1))) ∧
      (∀ offset, table.position? offset = some (table.position offset)) ∧
      (∀ offset, ∃ b, IsGreatest (boundariesUpTo text.toList offset) b) ∧
      ∀ first second b b', IsGreatest (boundariesUpTo text.toList first) b →
        IsGreatest (boundariesUpTo text.toList second) b' →
        (table.position first = table.position second ↔ b = b') := by
  intro table
  obtain ⟨pieces, hholds⟩ : ∃ pieces, Holds table pieces := exists_holds text.toList
  refine ⟨fun line column hline hcount hcolumn => ?_, hholds.position?_eq,
    fun offset => ⟨_, isGreatest_fitBytes text.toList offset⟩,
    fun first second b b' hfirst hsecond => ?_⟩
  · obtain ⟨offset, hoffset, hposition⟩ := hholds.position_offset? hline hcount column
    have hindex : line.toNat - 1 < pieces.length := by
      rw [hholds.lineCount_eq] at hcount
      omega
    obtain ⟨piece, hpiece, hcontent⟩ := hholds.exists_piece hindex
    rw [← hcontent] at hposition
    refine ⟨piece, offset, _, hpiece, hoffset, isGreatest_length_fitUnits _ _, hposition,
      fun hsingle => ?_⟩
    rw [length_fitUnits_of_single hsingle]
    omega
  · rw [hholds.position_inj, hfirst.unique (isGreatest_fitBytes _ _),
      hsecond.unique (isGreatest_fitBytes _ _)]
    rfl

/-- A column inside a surrogate pair of the second line, and two offsets inside one
character. -/
theorem position_of_reported_pair :
    let table := ofText "é\r\na😀b"
    table.lineCount = 2 ∧
      (∃ piece offset reached, table.piece? 1 = some piece ∧
        table.offset? (some 2) (some 3) = some offset ∧
        IsGreatest (beginningsWithin piece.content 2) reached ∧
        table.position offset = (2, reached + 1)) ∧
      IsGreatest (boundariesUpTo "é\r\na😀b".toList 6) 5 ∧
      IsGreatest (boundariesUpTo "é\r\na😀b".toList 8) 5 ∧
      table.position 6 = table.position 8 := by
  intro table
  obtain ⟨hreported, -, -, hsame⟩ := position_of_reported "é\r\na😀b"
  have hcount : table.lineCount = 2 := by decide
  obtain ⟨piece, offset, reached, hpiece, hoffset, hreached, hposition, -⟩ :=
    hreported 2 3 (by decide) (by decide) (by decide)
  have hfirst : IsGreatest (boundariesUpTo "é\r\na😀b".toList 6) 5 :=
    isGreatest_fitBytes "é\r\na😀b".toList 6
  have hsecond : IsGreatest (boundariesUpTo "é\r\na😀b".toList 8) 5 :=
    isGreatest_fitBytes "é\r\na😀b".toList 8
  exact ⟨hcount, ⟨piece, offset, reached, hpiece, hoffset, hreached, hposition⟩, hfirst, hsecond,
    (hsame 6 8 5 5 hfirst hsecond).mpr rfl⟩

end LineTable

end LintLayer
