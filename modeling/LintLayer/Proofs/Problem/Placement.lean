import LintLayer.Proofs.Batch.Overflow
import LintLayer.Proofs.Fix.CodeUnits
import LintLayer.Proofs.LineTable.DisableLine

/-!
# Problems in their snapshot

A finding is input that nobody has checked.  Its lines and columns may be
missing, zero, inverted or past the end, and its ranges may leave the text or
cut a character in two.  Whatever it says, the problem made of it fits the
snapshot.

* The steps.  Making a problem looks up lines, subtracts and reads parts of the
  text.  `ofFinding?` takes the same steps and has no answer when one of them
  has none.  It always has one (`ofFinding?_eq`).
* The spans.  Every offset that a finding leads to is a boundary of the text
  (`Holds.boundary_offset`, `boundary_offsetOfUnits`), so every edit of a problem can
  be carried out (`ofFinding_fits`), and its end can be computed in 64 bits
  (`selectIn_ofFinding`).
* The line.  The span starts in the line that the comment goes above
  (`disableEdit_above_span`).
-/

namespace LintLayer

open Text

namespace LineTable

/-! ## Offsets step by step -/

/-- The walk inside a part of the text, if the part can be read. -/
def advance? (table : LineTable) (start limit units : Nat) : Option Nat :=
  if table.ascii then some (min (start + units) limit)
  else do
    let here ← part? start limit table.text
    return start + bytes (← fitUnits? units here)

/-- The offset of a line and a column, if every step to it has a value. -/
def offsetSteps? (table : LineTable) (line column : Option UInt32) : Option (Option Nat) :=
  match line with
  | none => some none
  | some line =>
    if line = 0 then some none
    else do
      let index ← line.toNat.psub 1
      match table.lines[index]? with
      | none => return table.lines.getLast?.map Line.stop
      | some found =>
        match column with
        | none => return some found.stop
        | some column => return some (← table.advance? found.start found.stop (column.toNat - 1))

/-- The span of a finding, if every step to it has a value. -/
def spanOf? (table : LineTable) (finding : Finding) : Option Span := do
  let start := (← table.offsetSteps? finding.line finding.column).getD 0
  let stop := (← table.offsetSteps? finding.endLine finding.endColumn).getD start
  return Span.ofBounds start stop

/-- The terminator of a line, if the part at its end can be read. -/
def terminator? (table : LineTable) (line : Line) : Option (List Char) :=
  if line.stop < line.next then part? line.stop line.next table.text
  else match table.lines.find? fun other => other.stop < other.next with
    | some other => part? other.stop other.next table.text
    | none => some ['\n']

/-- The insertion that silences a rule, if every step to it has a value. -/
def disableComment? (table : LineTable) (line : UInt32) (rule : String) : Option Edit := do
  let above ← (max line.toNat 1).psub 1
  let last ← table.lineCount.psub 1
  let found ← table.lines[min above last]?
  let content ← part? found.start found.stop table.text
  let width ← (bytes content).psub (bytes (content.dropWhile fun c => c = ' ' || c = '\t'))
  let indent ← part? 0 width content
  let terminator ← table.terminator? found
  return { span := Span.emptyAt found.start
           newText := String.ofList (indent ++ disableMark.toList ++ rule.toList ++ terminator) }

section Steps

variable {table : LineTable} {pieces : List Piece}

/-- The content and the terminator of every line can be read. -/
theorem Holds.exists_parts (h : Holds table pieces) {line : Line} (hline : line ∈ table.lines) :
    ∃ content terminator, part? line.start line.stop table.text = some content ∧
      part? line.stop line.next table.text = some terminator := by
  obtain ⟨index, hindex⟩ := List.mem_iff_getElem?.mp hline
  obtain ⟨first, piece, rest, rfl, rfl⟩ := exists_split (h.lt_of_getElem? hindex)
  rw [h.getElem?_lines] at hindex
  obtain rfl := Option.some.inj hindex
  exact ⟨piece.content, piece.terminator, h.part?_content, h.part?_terminator⟩

theorem advance?_eq {start limit : Nat} {here : List Char}
    (hread : part? start limit table.text = some here) (units : Nat) :
    table.advance? start limit units = some (table.advance start limit units) := by
  unfold advance? advance
  split
  · rfl
  · simp only [hread, slice_of_part? hread, fitUnits?_eq, Option.bind_eq_bind, Option.bind_some,
      Option.pure_def]

theorem Holds.offsetSteps?_eq (h : Holds table pieces) (line column : Option UInt32) :
    table.offsetSteps? line column = some (table.offset? line column) := by
  rcases line_cases line with hline | ⟨line, rfl, hline⟩
  · rw [offset?_eq_none table hline]
    rcases hline with rfl | rfl <;> rfl
  · have hzero : line ≠ 0 := by
      rintro rfl
      simp at hline
    simp only [offsetSteps?, offset?, if_neg hzero, psub_of_le hline, Option.bind_eq_bind,
      Option.bind_some, Option.pure_def]
    cases hfound : table.lines[line.toNat - 1]? with
    | none =>
      obtain ⟨last, hlast, -⟩ := h.exists_last
      simp only [hlast, lastStop, Option.map_some, Option.getD_some]
    | some found =>
      obtain ⟨content, -, hread, -⟩ := h.exists_parts (List.mem_of_getElem? hfound)
      cases column with
      | none => rfl
      | some column => simp only [advance?_eq hread, Option.bind_some]

theorem Holds.spanOf?_eq (h : Holds table pieces) (finding : Finding) :
    table.spanOf? finding = some (table.spanOf finding) := by
  simp only [spanOf?, h.offsetSteps?_eq, Option.bind_eq_bind, Option.bind_some,
    Option.pure_def]
  rfl

theorem Holds.terminator?_eq (h : Holds table pieces) {line : Line} (hline : line ∈ table.lines) :
    table.terminator? line = some (table.terminator line) := by
  unfold terminator? terminator
  split
  · obtain ⟨-, ending, -, hread⟩ := h.exists_parts hline
    rw [hread, slice_of_part? hread]
  · cases hfind : table.lines.find? fun other => other.stop < other.next with
    | none => rfl
    | some other =>
      obtain ⟨-, ending, -, hread⟩ := h.exists_parts (List.mem_of_find?_eq_some hfind)
      simp only [hread, slice_of_part? hread]

theorem bytes_dropWhile_le (p : Char → Bool) (cs : List Char) :
    bytes (cs.dropWhile p) ≤ bytes cs := by
  have h := congrArg bytes (List.takeWhile_append_dropWhile (p := p) (l := cs))
  rw [bytes_append] at h
  omega

/-- The indentation is the part in front of what is left without it. -/
theorem part?_indent (content : List Char) :
    part? 0 (bytes content - bytes (content.dropWhile fun c => c = ' ' || c = '\t')) content =
      some (content.takeWhile fun c => c = ' ' || c = '\t') := by
  generalize hindent : content.takeWhile (fun c => c = ' ' || c = '\t') = indent
  generalize hbehind : content.dropWhile (fun c => c = ' ' || c = '\t') = behind
  have hsplit : content = indent ++ behind := by
    rw [← hindent, ← hbehind, List.takeWhile_append_dropWhile]
  rw [hsplit, bytes_append, Nat.add_sub_cancel]
  simpa only [bytes, List.nil_append, Nat.zero_add] using part?_append [] indent behind

theorem Holds.disableComment?_eq (h : Holds table pieces) (line : UInt32) (rule : String) :
    table.disableComment? line rule = some (table.disableComment line rule) := by
  have hcount : 1 ≤ table.lineCount := by
    rw [h.lineCount_eq]
    exact h.length_pos
  obtain ⟨found, hfound⟩ : ∃ found, table.lines[min (max line.toNat 1 - 1)
      (table.lineCount - 1)]? = some found :=
    ⟨_, List.getElem?_eq_getElem (show _ < table.lineCount by omega)⟩
  obtain ⟨content, ending, hcontent, hending⟩ := h.exists_parts (List.mem_of_getElem? hfound)
  have hindent := part?_indent content
  simp only [disableComment?, disableComment, psub_of_le (Nat.le_max_right _ _), psub_of_le hcount,
    hfound, hcontent, psub_of_le (bytes_dropWhile_le _ content), hindent,
    h.terminator?_eq (List.mem_of_getElem? hfound), indent, slice_of_part? hcontent,
    Option.bind_eq_bind, Option.bind_some, Option.getD_some, Option.pure_def]

end Steps

/-! ## Offsets are boundaries -/

theorem exists_upTo_append (column : Option UInt32) (content : List Char) :
    ∃ rest, content = upTo column content ++ rest := by
  cases column with
  | none => exact ⟨[], (List.append_nil content).symm⟩
  | some column => exact exists_fitUnits_append _ content

/-- The offset of every position is a boundary of the text. -/
theorem Holds.boundary_offset {table : LineTable} {pieces : List Piece} (h : Holds table pieces)
    (line column : Option UInt32) {offset : Nat}
    (hoffset : table.offset? line column = some offset) : Boundary table.text offset := by
  rcases line_cases line with hline | ⟨line, rfl, hline⟩
  · rw [offset?_eq_none table hline] at hoffset
    exact absurd hoffset (by simp)
  · rw [h.offset?_eq hline, Option.some.injEq] at hoffset
    subst hoffset
    rcases Nat.lt_or_ge (line.toNat - 1) pieces.length with hindex | hindex
    · obtain ⟨first, piece, rest, rfl, hlength⟩ := exists_split hindex
      obtain ⟨beyond, hbeyond⟩ := exists_upTo_append column piece.content
      rw [← hlength, startOf_split, contentOf_split]
      refine ⟨joined first ++ upTo column piece.content,
        beyond ++ (piece.terminator ++ joined rest), ?_, bytes_append _ _⟩
      rw [h.text_split]
      nth_rewrite 1 [hbeyond]
      simp only [List.append_assoc]
    · have hnone : bytes (upTo column []) = 0 := by cases column <;> rfl
      rw [startOf_of_length_le hindex, contentOf_of_length_le hindex, hnone, ← h.text_eq]
      exact ⟨table.text, [], (List.append_nil _).symm, rfl⟩

theorem boundary_offsetOfUnits (text : List Char) (offset : Nat) :
    Boundary text ((ofChars text).offsetOfUnits offset) := by
  obtain ⟨before, after, htext, hbytes, -⟩ := (isGreatest_offsetOfUnits text offset).1
  exact ⟨before, after, htext, hbytes⟩

end LineTable

/-- Boundaries in any order bound a span that fits. -/
theorem Span.fitsIn_ofBounds {text : List Char} {start stop : Nat}
    (hstart : Boundary text start) (hstop : Boundary text stop) :
    (Span.ofBounds start stop).FitsIn text := by
  have hend : Boundary text (Span.ofBounds start stop).stop := by
    rcases Nat.le_total start stop with hle | hle
    · rw [show (Span.ofBounds start stop).stop = stop from Nat.add_sub_of_le hle]
      exact hstop
    · have hempty : (Span.ofBounds start stop).stop = start := by
        show start + (stop - start) = start
        omega
      rw [hempty]
      exact hstart
  exact ⟨hend.le_bytes, hstart, hend⟩

/-- The edit lies in the text and cuts no character.  Applied alone it is not left
out: it replaces the part of the text at its span. -/
structure Edit.CarriedOut (edit : Edit) (text : String) : Prop where
  start_le_stop : edit.span.start ≤ edit.span.stop
  fits : edit.span.FitsIn text.toList
  replaces : ∃ before old after, text.toList = before ++ old ++ after ∧
    bytes before = edit.span.start ∧ bytes old = edit.span.length ∧
      (Edit.applyAll text [edit]).toList = before ++ edit.newText.toList ++ after

theorem Edit.carriedOut_of_fitsIn {text : String} {edit : Edit} (h : edit.span.FitsIn text.toList) :
    edit.CarriedOut text := by
  refine ⟨edit.span.start_le_stop, h, ?_⟩
  rw [Edit.toList_applyAll_singleton]
  exact Edit.splice_of_fitsIn h

namespace Problem

open LineTable

/-! ## A problem step by step -/

/-- The edit of a replacement, if every step to it has a value. -/
def editOf? (table : LineTable) (replacement : Replacement) : Option Edit := do
  let start ← table.offsetOfUnits? replacement.start
  let stop ← table.offsetOfUnits? replacement.stop
  return { span := Span.ofBounds start stop, newText := replacement.text }

/-- The edits of the fix of a finding, if every step to them has a value. -/
def editsOf? (table : LineTable) (finding : Finding) : Option (List Edit) :=
  match finding.fix with
  | some fix => fix.replacements.mapM (editOf? table)
  | none => some []

/-- The edit that silences the rule of a finding, if every step to it has a value. -/
def disableEditOf? (table : LineTable) (finding : Finding) : Option (Option Edit) :=
  match finding.rule with
  | some rule => (table.disableComment? (finding.line.getD 1) rule).map some
  | none => some none

/-- The problem of a finding, if every step to it has a value. -/
def ofFinding? (table : LineTable) (finding : Finding) : Option Problem := do
  let span ← table.spanOf? finding
  let edits ← editsOf? table finding
  let disableEdit ← disableEditOf? table finding
  return { finding, span, fixable := finding.isFixable, edits, disableEdit }

theorem editOf?_eq (text : List Char) :
    editOf? (ofChars text) = fun replacement => some (editOf (ofChars text) replacement) := by
  funext replacement
  simp only [editOf?, offsetOfUnits?_ofChars, Option.bind_eq_bind, Option.bind_some,
    Option.pure_def]
  rfl

theorem editsOf?_eq (text : List Char) (finding : Finding) :
    editsOf? (ofChars text) finding = some (ofFinding (ofChars text) finding).edits := by
  rw [Fix.edits_ofFinding, editsOf?, editOf?_eq, Fix.ranges]
  cases finding.fix with
  | none => rfl
  | some fix => exact List.mapM_pure

theorem disableEditOf?_eq (text : List Char) (finding : Finding) :
    disableEditOf? (ofChars text) finding =
      some (ofFinding (ofChars text) finding).disableEdit := by
  obtain ⟨pieces, hholds⟩ := exists_holds text
  rw [disableEditOf?, ofFinding]
  cases finding.rule with
  | none => rfl
  | some rule => simp only [hholds.disableComment?_eq, Option.map_some]

theorem ofFinding?_eq (text : List Char) (finding : Finding) :
    ofFinding? (ofChars text) finding = some (ofFinding (ofChars text) finding) := by
  obtain ⟨pieces, hholds⟩ := exists_holds text
  simp only [ofFinding?, hholds.spanOf?_eq, editsOf?_eq, disableEditOf?_eq, Option.bind_eq_bind,
    Option.bind_some, Option.pure_def]
  rfl

/-! ## What a problem carries fits the text -/

theorem fitsIn_span_ofFinding (text : List Char) (finding : Finding) :
    (ofFinding (ofChars text) finding).span.FitsIn text := by
  obtain ⟨pieces, hholds⟩ := exists_holds text
  have hoffset : ∀ line column fallback, Boundary text fallback →
      Boundary text (((ofChars text).offset? line column).getD fallback) := by
    intro line column fallback hfallback
    cases hoffset : (ofChars text).offset? line column with
    | none => exact hfallback
    | some offset => exact hholds.boundary_offset line column hoffset
  have hzero : Boundary text 0 := ⟨[], text, rfl, rfl⟩
  exact Span.fitsIn_ofBounds (hoffset _ _ 0 hzero) (hoffset _ _ _ (hoffset _ _ 0 hzero))

theorem fitsIn_of_mem_edits {text : List Char} {finding : Finding} {edit : Edit}
    (hedit : edit ∈ (ofFinding (ofChars text) finding).edits) : edit.span.FitsIn text := by
  rw [Fix.edits_ofFinding] at hedit
  obtain ⟨replacement, -, rfl⟩ := List.mem_map.mp hedit
  exact Span.fitsIn_ofBounds (boundary_offsetOfUnits text _) (boundary_offsetOfUnits text _)

/-- The fixes of findings on a text have their ends in the text.  If its length
is a number of 64 bits, so are they, and the program's batch and the text after
it are those with exact ends. -/
theorem selectIn_ofFinding (arithmetic : Arithmetic) {text : String}
    (htext : bytes text.toList < Nat.pow 2 64) (findings : List Finding) :
    let fixes := findings.map fun finding => (ofFinding (ofText text) finding).edits
    Batch.selectIn arithmetic fixes = some (Batch.select fixes) ∧
      Edit.applyIn arithmetic text (Batch.select fixes) =
        some (Edit.applyAll text (Batch.select fixes)) := by
  intro fixes
  have hends : ∀ fix ∈ fixes, ∀ edit ∈ fix, edit.span.stop < Nat.pow 2 64 := by
    intro fix hfix edit hedit
    obtain ⟨finding, -, rfl⟩ := List.mem_map.mp hfix
    exact Nat.lt_of_le_of_lt (fitsIn_of_mem_edits hedit).stop_le htext
  refine ⟨Batch.selectIn_of_lt hends, Edit.applyIn_of_lt (fun edit hedit => ?_) text⟩
  obtain ⟨fix, hfix, hmem⟩ := Batch.exists_mem_of_mem_select hedit
  exact hends fix hfix edit hmem

/-- The comment goes in front of the line that the line number leads to. -/
theorem span_disableComment {table : LineTable} {pieces : List Piece} (h : Holds table pieces)
    (line : UInt32) (rule : String) :
    (table.disableComment line rule).span =
      Span.emptyAt (startOf pieces (table.clampedIndex line)) := by
  have hindex := h.clampedIndex_lt line
  obtain ⟨first, piece, rest, rfl, hlength⟩ := exists_split hindex
  rw [h.disableComment_eq hlength.symm, ← hlength, startOf_split]

theorem boundary_startOf {table : LineTable} {pieces : List Piece} (h : Holds table pieces)
    (index : Nat) : Boundary table.text (startOf pieces index) := by
  refine ⟨joined (pieces.take index), joined (pieces.drop index), ?_, rfl⟩
  rw [h.text_eq, ← joined_append, List.take_append_drop]

theorem fitsIn_of_disableEdit {text : List Char} {finding : Finding} {edit : Edit}
    (hedit : (ofFinding (ofChars text) finding).disableEdit = some edit) :
    edit.span.FitsIn text := by
  obtain ⟨pieces, hholds⟩ := exists_holds text
  obtain ⟨rule, -, rfl⟩ := Option.map_eq_some_iff.mp hedit
  have hboundary := boundary_startOf hholds ((ofChars text).clampedIndex (finding.line.getD 1))
  have hfits := Span.fitsIn_ofBounds hboundary hboundary
  rw [Span.ofBounds, Nat.sub_self] at hfits
  rw [span_disableComment hholds]
  exact hfits

/-- Whatever a finding says, its problem can be made, and its span, its edits and
the edit that silences its rule fit the text: none of the edits is left out when
it is applied.  There is one edit for each replacement. -/
theorem ofFinding_fits (text : String) (finding : Finding) :
    let table := ofText text
    let problem := ofFinding table finding
    ofFinding? table finding = some problem ∧
      (problem.span.start ≤ problem.span.stop ∧ problem.span.FitsIn text.toList) ∧
      (∀ edit ∈ problem.edits, edit.CarriedOut text) ∧
      (∀ edit, problem.disableEdit = some edit → edit.CarriedOut text) ∧
      problem.edits.length = (finding.fix.map fun fix => fix.replacements.length).getD 0 := by
  intro table problem
  refine ⟨ofFinding?_eq text.toList finding,
    ⟨problem.span.start_le_stop, fitsIn_span_ofFinding text.toList finding⟩,
    fun edit hedit => Edit.carriedOut_of_fitsIn (fitsIn_of_mem_edits hedit),
    fun edit hedit => Edit.carriedOut_of_fitsIn (fitsIn_of_disableEdit hedit), ?_⟩
  rw [show problem.edits = _ from Fix.edits_ofFinding table finding, List.length_map, Fix.ranges]
  cases finding.fix <;> rfl

/-- A finding past the end whose end comes before its start, with a range from the
middle of a surrogate pair to far behind the text. -/
def astray : Finding :=
  { rule := some "semi", message := "Missing semicolon.", line := some 9, column := some 0
    endLine := some 1, fix := some ⟨[Replacement.ofBounds 4 99 ""]⟩ }

theorem ofFinding_fits_astray :
    let problem := ofFinding (ofText "é\r\n😀;") astray
    ofFinding? (ofText "é\r\n😀;") astray = some problem ∧
      problem.span.FitsIn "é\r\n😀;".toList ∧ problem.edits.length = 1 ∧
      ∃ edit comment, edit ∈ problem.edits ∧ problem.disableEdit = some comment ∧
        edit.CarriedOut "é\r\n😀;" ∧ comment.CarriedOut "é\r\n😀;" := by
  intro problem
  obtain ⟨hmade, hspan, hedits, hcomment, hlength⟩ := ofFinding_fits "é\r\n😀;" astray
  have hedit : editOf (ofText "é\r\n😀;") (Replacement.ofBounds 4 99 "") ∈ problem.edits :=
    List.mem_singleton_self _
  exact ⟨hmade, hspan.2, hlength, _, _, hedit, rfl, hedits _ hedit, hcomment _ rfl⟩

/-! ## The span and the comment -/

/-- The comment goes above the line in which the span starts.  The search for this
line finds it: the lines up to it start at or before the span, and the later
ones behind it.  It is the line of the finding, the first one for a finding
without a line or with line zero, and the last one for a line past the end. -/
theorem disableEdit_above_span (text : String) (finding : Finding) (rule : String)
    (hrule : finding.rule = some rule) :
    let table := ofText text
    let problem := ofFinding table finding
    let index := table.lineOf problem.span.start
    ∃ edit, problem.disableEdit = some edit ∧ edit.span.isEmpty = true ∧
      table.lineStart? index = some edit.span.start ∧
      (∀ other start, table.lineStart? other = some start →
        (start ≤ problem.span.start ↔ other ≤ index)) ∧
      index = min (max (finding.line.getD 1).toNat 1) table.lineCount - 1 := by
  intro table problem index
  obtain ⟨pieces, hholds⟩ : ∃ pieces, Holds table pieces := exists_holds text.toList
  obtain ⟨hstart, hstop⟩ := hholds.offset_in_line finding.line finding.column
  have hclamped := hholds.clampedIndex_lt (finding.line.getD 1)
  have hindex : index = table.clampedIndex (finding.line.getD 1) :=
    hholds.lineOf_eq hclamped hstart hstop
  have hedit : problem.disableEdit =
      some (table.disableComment (finding.line.getD 1) rule) := by
    show finding.rule.map _ = _
    rw [hrule, Option.map_some]
  have hspan := span_disableComment hholds (finding.line.getD 1) rule
  refine ⟨_, hedit, ?_, ?_, fun other start hother => ?_, hindex⟩
  · rw [hspan]
    rfl
  · rw [hindex, hholds.lineStart?_eq hclamped, hspan]
    rfl
  · obtain ⟨line, hline, rfl⟩ := Option.map_eq_some_iff.mp hother
    rw [hholds.start_eq hline, hindex]
    exact hholds.lined.startOf_le_iff (hholds.lt_of_getElem? hline) hstart hstop

theorem disableEdit_above_span_astray :
    let table := ofText "é\r\n😀;"
    let problem := ofFinding table astray
    astray.rule = some "semi" ∧ table.lineOf problem.span.start = 1 ∧
      ∃ edit, problem.disableEdit = some edit ∧ edit.span.isEmpty = true ∧
        table.lineStart? 1 = some edit.span.start := by
  intro table problem
  have hrule : astray.rule = some "semi" := rfl
  obtain ⟨edit, hedit, hempty, hstart, -, hindex⟩ :=
    disableEdit_above_span "é\r\n😀;" astray "semi" hrule
  have hlast : min (max (astray.line.getD 1).toNat 1) table.lineCount - 1 = 1 := by decide
  have hline : table.lineOf problem.span.start = 1 := hindex.trans hlast
  exact ⟨hrule, hline, edit, hedit, hempty, by rw [← hline]; exact hstart⟩

end Problem

end LintLayer
