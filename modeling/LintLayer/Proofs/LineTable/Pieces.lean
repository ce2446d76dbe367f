import LintLayer.Proofs.LineTable.Inverse

/-!
# The lines as pieces of the text

A piece is a line without its offsets: a content and the terminator behind
it.  `Lined pieces` says that the pieces are the lines of the text that they
join to.  Every text has such pieces (`exists_lined`), and its table holds the
offsets of any such pieces (`Lined.holds`), so a list of pieces that is
`Lined` says all about the line table of its text.  Later proofs start from
`exists_holds` and never look at the scanner.

`piece?` reads a piece back through the table.  Two tables are compared by
what they read, and `Holds.piece?_eq` says what that is.  `startOf` and
`contentOf` give every line a start and a content, also past the end.
-/

namespace LintLayer.LineTable

open Text

/-- A line as text: its content and its terminator, which only the last line
does not have. -/
structure Piece where
  content : List Char
  terminator : List Char
  deriving DecidableEq, Repr

/-- The text of the pieces. -/
def joined : List Piece → List Char
  | [] => []
  | piece :: pieces => piece.content ++ piece.terminator ++ joined pieces

/-- The offsets of a piece that starts at byte `start`. -/
def Piece.lineAt (piece : Piece) (start : Nat) : Line :=
  ⟨start, start + bytes piece.content, start + bytes piece.content + bytes piece.terminator⟩

/-- The offsets of the pieces, the first one starting at byte `start`. -/
def linesOf (start : Nat) : List Piece → List Line
  | [] => []
  | piece :: pieces => piece.lineAt start :: linesOf (piece.lineAt start).next pieces

/-- The pieces are the lines of their text. -/
inductive Lined : List Piece → Prop where
  | last {content} (hplain : ∀ c ∈ content, isBreak c = false) : Lined [⟨content, []⟩]
  | line {content terminator pieces}
      (hplain : ∀ c ∈ content, isBreak c = false)
      (hterminator : Terminator terminator (joined pieces))
      (tail : Lined pieces) :
      Lined (⟨content, terminator⟩ :: pieces)

@[simp] theorem joined_append (first rest : List Piece) :
    joined (first ++ rest) = joined first ++ joined rest := by
  induction first with
  | nil => rfl
  | cons piece first ih => simp only [List.cons_append, joined, ih, List.append_assoc]

theorem linesOf_append (start : Nat) (first rest : List Piece) :
    linesOf start (first ++ rest) =
      linesOf start first ++ linesOf (start + bytes (joined first)) rest := by
  induction first generalizing start with
  | nil => simp [joined, linesOf, bytes]
  | cons piece first ih =>
    simp only [List.cons_append, linesOf, Piece.lineAt, ih, joined, bytes_append, Nat.add_assoc]

@[simp] theorem length_linesOf (start : Nat) (pieces : List Piece) :
    (linesOf start pieces).length = pieces.length := by
  induction pieces generalizing start with
  | nil => rfl
  | cons piece pieces ih => simp only [linesOf, List.length_cons, ih]

/-! ## The scanner and the pieces -/

theorem scan_content_append {content : List Char} (hplain : ∀ c ∈ content, isBreak c = false)
    (start pos : Nat) (rest : List Char) :
    scan start pos (content ++ rest) = scan start (pos + bytes content) rest := by
  induction content generalizing pos with
  | nil => rfl
  | cons c content ih =>
    have hc := hplain c List.mem_cons_self
    simp only [isBreak, Bool.or_eq_false_iff, beq_eq_false_iff_ne] at hc
    have htail := ih (fun d hd => hplain d (List.mem_cons_of_mem c hd)) (pos + c.utf8Size)
    rw [List.cons_append, scan_plain_cons hc.1 hc.2, htail, bytes, Nat.add_assoc]

theorem Terminator.scan_append {terminator rest : List Char} (h : Terminator terminator rest)
    (start pos : Nat) :
    scan start pos (terminator ++ rest) =
      ⟨start, pos, pos + bytes terminator⟩ ::
        scan (pos + bytes terminator) (pos + bytes terminator) rest := by
  cases h with
  | lf => simp only [List.cons_append, List.nil_append, scan, bytes_lf]
  | crlf => simp only [List.cons_append, List.nil_append, scan, bytes_crlf]
  | cr _ hlone =>
    rw [bytes_cr, List.cons_append, List.nil_append, scan_cr_cons]
    rintro later rfl
    exact hlone rfl

/-- The scanner finds the offsets of the pieces. -/
theorem Lined.scan_joined {pieces : List Piece} (h : Lined pieces) (start : Nat) :
    scan start start (joined pieces) = linesOf start pieces := by
  induction h generalizing start with
  | @last content hplain =>
    rw [joined, List.append_assoc, scan_content_append hplain]
    simp [joined, linesOf, Piece.lineAt, scan, bytes]
  | @line content terminator pieces hplain hterminator tail ih =>
    rw [joined, List.append_assoc, scan_content_append hplain, hterminator.scan_append, ih,
      linesOf, Piece.lineAt]

theorem Tiled.exists_lined {start : Nat} {text : List Char} {lines : List Line}
    (htiled : Tiled start text lines) : ∃ pieces, Lined pieces ∧ joined pieces = text := by
  induction htiled with
  | @last start content hplain =>
    exact ⟨[⟨content, []⟩], .last hplain, by simp [joined]⟩
  | @line start content terminator rest lines hplain hterminator tail ih =>
    obtain ⟨pieces, hlined, rfl⟩ := ih
    exact ⟨⟨content, terminator⟩ :: pieces, .line hplain hterminator hlined, rfl⟩

/-- Every text is made of lines. -/
theorem exists_lined (text : List Char) : ∃ pieces, Lined pieces ∧ joined pieces = text :=
  (scan_tiled text).exists_lined

/-! ## One piece among the others -/

theorem Lined.ne_nil {pieces : List Piece} (h : Lined pieces) : pieces ≠ [] := by
  cases h <;> exact List.cons_ne_nil _ _

/-- A piece is the last one, without a terminator, or its terminator stands in
front of the pieces behind it. -/
theorem lined_cons_iff {piece : Piece} {rest : List Piece} :
    Lined (piece :: rest) ↔
      (∀ c ∈ piece.content, isBreak c = false) ∧
        (rest = [] ∧ piece.terminator = [] ∨
          Lined rest ∧ Terminator piece.terminator (joined rest)) := by
  constructor
  · intro h
    cases h with
    | last hplain => exact ⟨hplain, .inl ⟨rfl, rfl⟩⟩
    | line hplain hterminator tail => exact ⟨hplain, .inr ⟨tail, hterminator⟩⟩
  · rcases piece with ⟨content, terminator⟩
    rintro ⟨hplain, ⟨rfl, rfl⟩ | ⟨tail, hterminator⟩⟩
    · exact .last hplain
    · exact .line hplain hterminator tail

theorem Lined.of_append {first rest : List Piece} (h : Lined (first ++ rest)) (hrest : rest ≠ []) :
    Lined rest := by
  induction first with
  | nil => exact h
  | cons piece first ih =>
    rw [List.cons_append, lined_cons_iff] at h
    rcases h.2 with ⟨hnil, -⟩ | ⟨tail, -⟩
    · exact absurd (List.append_eq_nil_iff.mp hnil).2 hrest
    · exact ih tail

theorem Lined.piece_cases {first rest : List Piece} {piece : Piece}
    (h : Lined (first ++ piece :: rest)) :
    (∀ c ∈ piece.content, isBreak c = false) ∧
      (rest = [] ∧ piece.terminator = [] ∨
        Lined rest ∧ Terminator piece.terminator (joined rest)) :=
  lined_cons_iff.mp (h.of_append (List.cons_ne_nil piece rest))

theorem exists_split {pieces : List Piece} {index : Nat} (h : index < pieces.length) :
    ∃ first piece rest, pieces = first ++ piece :: rest ∧ first.length = index := by
  refine ⟨pieces.take index, pieces[index], pieces.drop (index + 1), ?_, ?_⟩
  · rw [← List.drop_eq_getElem_cons h, List.take_append_drop]
  · rw [List.length_take]
    omega

theorem getElem?_split (first rest : List Piece) (piece : Piece) :
    (first ++ piece :: rest)[first.length]? = some piece := by
  rw [List.getElem?_append_right (Nat.le_refl _), Nat.sub_self, List.getElem?_cons_zero]

/-! ## The table of the pieces -/

/-- The table holds the text and the offsets of the pieces, which are its lines,
and takes the short cut only for a plain text. -/
structure Holds (table : LineTable) (pieces : List Piece) : Prop where
  lined : Lined pieces
  text_eq : table.text = joined pieces
  lines_eq : table.lines = linesOf 0 pieces
  plain_of_ascii : table.ascii = true → isAscii table.text = true

theorem Lined.holds {pieces : List Piece} (h : Lined pieces) :
    Holds (ofChars (joined pieces)) pieces where
  lined := h
  text_eq := rfl
  lines_eq := h.scan_joined 0
  plain_of_ascii := id

/-- The table of every text holds the lines of the text. -/
theorem exists_holds (text : List Char) : ∃ pieces, Holds (ofChars text) pieces := by
  obtain ⟨pieces, hlined, rfl⟩ := exists_lined text
  exact ⟨pieces, hlined.holds⟩

section Table

variable {table : LineTable} {pieces : List Piece}

theorem Holds.length_pos (h : Holds table pieces) : 0 < pieces.length :=
  List.length_pos_iff.mpr h.lined.ne_nil

theorem Holds.lineCount_eq (h : Holds table pieces) : table.lineCount = pieces.length := by
  rw [lineCount, h.lines_eq, length_linesOf]

theorem Holds.getElem?_eq_none (h : Holds table pieces) {index : Nat}
    (hindex : pieces.length ≤ index) : table.lines[index]? = none := by
  rw [h.lines_eq, List.getElem?_eq_none (by rwa [length_linesOf])]

theorem Holds.lt_of_getElem? (h : Holds table pieces) {index : Nat} {line : Line}
    (hline : table.lines[index]? = some line) : index < pieces.length := by
  by_contra hge
  rw [h.getElem?_eq_none (by omega)] at hline
  exact absurd hline (by simp)

end Table

section Split

variable {table : LineTable} {first rest : List Piece} {piece : Piece}

/-- The offsets of a piece count from the text of the pieces before it. -/
theorem Holds.getElem?_lines (h : Holds table (first ++ piece :: rest)) :
    table.lines[first.length]? = some (piece.lineAt (bytes (joined first))) := by
  rw [h.lines_eq, linesOf_append, List.getElem?_append_right (by rw [length_linesOf]),
    length_linesOf, Nat.sub_self, linesOf, List.getElem?_cons_zero, Nat.zero_add]

theorem Holds.text_split (h : Holds table (first ++ piece :: rest)) :
    table.text = joined first ++ piece.content ++ (piece.terminator ++ joined rest) := by
  rw [h.text_eq, joined_append, joined]
  simp only [List.append_assoc]

theorem part?_append (before middle after : List Char) :
    part? (bytes before) (bytes before + bytes middle) (before ++ middle ++ after) =
      some middle := by
  rw [part?, if_pos (Nat.le_add_right _ _), slice?_append]

theorem slice_of_part? {start stop : Nat} {text here : List Char}
    (h : part? start stop text = some here) : slice start stop text = here := by
  rw [part?] at h
  split at h
  · rw [slice, h, Option.getD_some]
  · exact absurd h (by simp)

theorem Holds.part?_content (h : Holds table (first ++ piece :: rest)) :
    let line := piece.lineAt (bytes (joined first))
    part? line.start line.stop table.text = some piece.content := by
  rw [h.text_split]
  exact part?_append _ _ _

theorem Holds.part?_terminator (h : Holds table (first ++ piece :: rest)) :
    let line := piece.lineAt (bytes (joined first))
    part? line.stop line.next table.text = some piece.terminator := by
  have hpart := part?_append (joined first ++ piece.content) piece.terminator (joined rest)
  rw [bytes_append] at hpart
  rw [h.text_split, ← List.append_assoc]
  exact hpart

end Split

/-- The content and the terminator of a line, counted from zero. -/
def piece? (table : LineTable) (index : Nat) : Option Piece := do
  let line ← table.lines[index]?
  let content ← part? line.start line.stop table.text
  let terminator ← part? line.stop line.next table.text
  return ⟨content, terminator⟩

theorem Holds.piece?_eq {table : LineTable} {pieces : List Piece} (h : Holds table pieces)
    (index : Nat) : table.piece? index = pieces[index]? := by
  rcases Nat.lt_or_ge index pieces.length with hindex | hindex
  · obtain ⟨first, piece, rest, rfl, rfl⟩ := exists_split hindex
    simp only [piece?, h.getElem?_lines, h.part?_content, h.part?_terminator,
      Option.bind_eq_bind, Option.bind_some, Option.pure_def, getElem?_split]
  · rw [List.getElem?_eq_none hindex, piece?, h.getElem?_eq_none hindex]
    rfl

/-! ## Starts and contents of the lines -/

/-- The start of a line, counted from zero.  A line past the end starts at the
end of the text. -/
def startOf (pieces : List Piece) (index : Nat) : Nat :=
  bytes (joined (pieces.take index))

/-- The content of a line, counted from zero.  A line past the end has none. -/
def contentOf (pieces : List Piece) (index : Nat) : List Char :=
  (pieces[index]?.map Piece.content).getD []

theorem startOf_split (first rest : List Piece) :
    startOf (first ++ rest) first.length = bytes (joined first) := by
  rw [startOf, List.take_left]

theorem contentOf_split (first rest : List Piece) (piece : Piece) :
    contentOf (first ++ piece :: rest) first.length = piece.content := by
  rw [contentOf, getElem?_split, Option.map_some, Option.getD_some]

theorem startOf_succ_split (first rest : List Piece) (piece : Piece) :
    startOf (first ++ piece :: rest) (first.length + 1) =
      bytes (joined first) + bytes piece.content + bytes piece.terminator := by
  have h := startOf_split (first ++ [piece]) rest
  rw [List.append_assoc, List.length_append] at h
  refine h.trans ?_
  simp [joined, Nat.add_assoc]

theorem startOf_of_length_le {pieces : List Piece} {index : Nat} (h : pieces.length ≤ index) :
    startOf pieces index = bytes (joined pieces) := by
  rw [startOf, List.take_of_length_le h]

theorem contentOf_of_length_le {pieces : List Piece} {index : Nat} (h : pieces.length ≤ index) :
    contentOf pieces index = [] := by
  rw [contentOf, List.getElem?_eq_none h, Option.map_none, Option.getD_none]

/-- A line ends where the next one starts, or before. -/
theorem startOf_add_content_le (pieces : List Piece) (index : Nat) :
    startOf pieces index + bytes (contentOf pieces index) ≤ startOf pieces (index + 1) := by
  rcases Nat.lt_or_ge index pieces.length with hindex | hindex
  · obtain ⟨first, piece, rest, rfl, rfl⟩ := exists_split hindex
    rw [startOf_split, contentOf_split, startOf_succ_split]
    omega
  · rw [startOf_of_length_le hindex, contentOf_of_length_le hindex,
      startOf_of_length_le (Nat.le_add_right_of_le hindex)]
    exact Nat.le_refl _

theorem startOf_mono (pieces : List Piece) : Monotone (startOf pieces) :=
  monotone_nat_of_le_succ fun index =>
    Nat.le_trans (Nat.le_add_right _ _) (startOf_add_content_le pieces index)

theorem Terminator.bytes_pos {terminator rest : List Char} (h : Terminator terminator rest) :
    0 < bytes terminator := by
  cases h <;> decide

/-- In front of another line a line has a terminator, so the content ends before
the next line starts. -/
theorem Lined.startOf_add_content_lt {pieces : List Piece} (h : Lined pieces) {index : Nat}
    (hindex : index + 1 < pieces.length) :
    startOf pieces index + bytes (contentOf pieces index) < startOf pieces (index + 1) := by
  obtain ⟨first, piece, rest, rfl, rfl⟩ := exists_split (Nat.lt_of_succ_lt hindex)
  rw [startOf_split, contentOf_split, startOf_succ_split]
  rcases h.piece_cases.2 with ⟨rfl, -⟩ | ⟨-, hterminator⟩
  · simp at hindex
  · have hpos := hterminator.bytes_pos
    omega

/-- The last line ends with the text. -/
theorem Lined.startOf_add_content_last {pieces : List Piece} (h : Lined pieces) {index : Nat}
    (hindex : index + 1 = pieces.length) :
    startOf pieces index + bytes (contentOf pieces index) = bytes (joined pieces) := by
  obtain ⟨first, piece, rest, rfl, rfl⟩ := exists_split (show index < pieces.length by omega)
  rcases h.piece_cases.2 with ⟨rfl, hterminator⟩ | ⟨hlined, -⟩
  · rw [startOf_split, contentOf_split, joined_append]
    simp [joined, hterminator]
  · have hrest := List.length_pos_iff.mpr hlined.ne_nil
    rw [List.length_append, List.length_cons] at hindex
    omega

theorem Lined.startOf_lt {pieces : List Piece} (h : Lined pieces) {index later : Nat}
    (hlt : index < later) (hlater : later < pieces.length) :
    startOf pieces index < startOf pieces later := by
  have hnext := h.startOf_add_content_lt (show index + 1 < pieces.length by omega)
  have hmono := startOf_mono pieces (show index + 1 ≤ later from hlt)
  omega

section Table

variable {table : LineTable} {pieces : List Piece}

theorem Holds.exists_line (h : Holds table pieces) {index : Nat} (hindex : index < pieces.length) :
    ∃ line, table.lines[index]? = some line ∧ line.start = startOf pieces index ∧
      line.stop = startOf pieces index + bytes (contentOf pieces index) := by
  obtain ⟨first, piece, rest, rfl, rfl⟩ := exists_split hindex
  rw [startOf_split, contentOf_split]
  exact ⟨_, h.getElem?_lines, rfl, rfl⟩

theorem Holds.start_eq (h : Holds table pieces) {index : Nat} {line : Line}
    (hline : table.lines[index]? = some line) : line.start = startOf pieces index := by
  obtain ⟨found, hfound, hstart, -⟩ := h.exists_line (h.lt_of_getElem? hline)
  rw [hline] at hfound
  rw [Option.some.inj hfound, hstart]

theorem Holds.exists_piece (h : Holds table pieces) {index : Nat} (hindex : index < pieces.length) :
    ∃ piece, table.piece? index = some piece ∧ piece.content = contentOf pieces index := by
  obtain ⟨first, piece, rest, rfl, rfl⟩ := exists_split hindex
  refine ⟨piece, ?_, (contentOf_split first rest piece).symm⟩
  rw [h.piece?_eq, getElem?_split]

theorem Holds.lineStart?_eq (h : Holds table pieces) {index : Nat}
    (hindex : index < pieces.length) :
    table.lineStart? index = some (startOf pieces index) := by
  obtain ⟨line, hline, hstart, -⟩ := h.exists_line hindex
  rw [lineStart?, hline, Option.map_some, hstart]

end Table

end LintLayer.LineTable
