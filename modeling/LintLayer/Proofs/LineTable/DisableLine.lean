import LintLayer.Proofs.Edit.Simultaneous
import LintLayer.Proofs.LineTable.Position

/-!
# The line that silences a rule

`disableComment` inserts one line above a line of the text.  The danger is at
the two seams: the terminator in front of the new line and the one at its end
could join with what stands behind them, since a CR in front of an LF is no
terminator of its own.

* `Lined.insert` is the step: a line with a content and no line break in it goes
  between two lines and leaves both as they are.
* `Lined.terminator_above` says that the terminator which the new line takes over
  does not join with the line below it.
* `disableComment_inserts_line` compares the lines of the two texts.
-/

namespace LintLayer.LineTable

open Text

/-! ## Terminators in front of a text -/

theorem Terminator.head?_ne_of_cr {rest : List Char} (h : Terminator ['\r'] rest) :
    rest.head? ≠ some '\n' := by
  cases h with
  | cr _ hlone => exact hlone

/-- Only a lone CR depends on what stands behind it. -/
theorem Terminator.in_front {terminator rest text : List Char} (h : Terminator terminator rest)
    (hhead : terminator = ['\r'] → text.head? ≠ some '\n') : Terminator terminator text := by
  cases h with
  | lf => exact .lf text
  | crlf => exact .crlf text
  | cr => exact .cr text (hhead rfl)

theorem head?_append_ne_lf {first rest : List Char} (hfirst : first.head? ≠ some '\n')
    (hrest : rest.head? ≠ some '\n') : (first ++ rest).head? ≠ some '\n' := by
  cases first with
  | nil => exact hrest
  | cons c first => exact hfirst

theorem head?_ne_lf_of_plain {content : List Char} (hplain : ∀ c ∈ content, isBreak c = false) :
    content.head? ≠ some '\n' := by
  intro hhead
  have hbreak := hplain '\n' (List.mem_of_head? hhead)
  exact absurd hbreak (by decide)

/-! ## A line between two lines -/

/-- A line can be put in front of a piece.  Its content hides the piece from the
terminator before it. -/
theorem Lined.insert {first rest : List Piece} {piece : Piece}
    (h : Lined (first ++ piece :: rest)) {content terminator : List Char}
    (hplain : ∀ c ∈ content, isBreak c = false) (hcontent : content ≠ [])
    (hterminator : Terminator terminator (joined (piece :: rest))) :
    Lined (first ++ ⟨content, terminator⟩ :: piece :: rest) := by
  induction first with
  | nil => exact .line hplain hterminator h
  | cons before first ih =>
    rw [List.cons_append, lined_cons_iff] at h ⊢
    obtain ⟨hbefore, ⟨hnil, -⟩ | ⟨tail, hending⟩⟩ := h
    · simp at hnil
    · refine ⟨hbefore, .inr ⟨ih tail, hending.in_front fun hcr => ?_⟩⟩
      rw [hcr] at hending
      have hfirst : (joined first).head? ≠ some '\n' := by
        intro hlf
        apply hending.head?_ne_of_cr
        rw [joined_append, List.head?_append, hlf, Option.some_or]
      rw [joined_append]
      apply head?_append_ne_lf hfirst
      rw [joined, List.append_assoc, List.head?_append_of_ne_nil _ hcontent]
      exact head?_ne_lf_of_plain hplain

/-! ## The terminator of the new line -/

/-- The first terminator of a text. -/
def firstTerminator? : List Char → Option (List Char)
  | [] => none
  | '\n' :: _ => some ['\n']
  | '\r' :: '\n' :: _ => some ['\r', '\n']
  | '\r' :: _ => some ['\r']
  | _ :: cs => firstTerminator? cs

/-- The terminator of a piece.  A piece without one takes the first terminator of
the text, or LF. -/
def terminatorLike (text : List Char) (piece : Piece) : List Char :=
  if piece.terminator = [] then (firstTerminator? text).getD ['\n'] else piece.terminator

theorem firstTerminator?_plain_append {content : List Char}
    (hplain : ∀ c ∈ content, isBreak c = false) (rest : List Char) :
    firstTerminator? (content ++ rest) = firstTerminator? rest := by
  induction content with
  | nil => rfl
  | cons c content ih =>
    have hc := hplain c List.mem_cons_self
    simp only [isBreak, Bool.or_eq_false_iff, beq_eq_false_iff_ne] at hc
    have htail := ih fun d hd => hplain d (List.mem_cons_of_mem c hd)
    rw [List.cons_append, firstTerminator?, htail]
    · exact hc.1
    · intro _ hcr
      exact absurd hcr hc.2
    · exact hc.2

theorem Terminator.firstTerminator?_append {terminator rest : List Char}
    (h : Terminator terminator rest) :
    firstTerminator? (terminator ++ rest) = some terminator := by
  cases h with
  | lf => rfl
  | crlf => rfl
  | cr _ hlone =>
    rw [List.cons_append, List.nil_append, firstTerminator?]
    rintro later rfl
    exact hlone rfl

theorem Terminator.ne_nil {terminator rest : List Char} (h : Terminator terminator rest) :
    terminator ≠ [] := by
  cases h <;> exact List.cons_ne_nil _ _

/-- The first terminator of a text is that of its first line. -/
theorem Lined.firstTerminator?_joined {piece : Piece} {rest : List Piece}
    (h : Lined (piece :: rest)) :
    firstTerminator? (joined (piece :: rest)) =
      if piece.terminator = [] then none else some piece.terminator := by
  rw [joined, List.append_assoc]
  obtain ⟨hplain, ⟨rfl, hnone⟩ | ⟨-, hterminator⟩⟩ := lined_cons_iff.mp h
  · rw [firstTerminator?_plain_append hplain, if_pos hnone, hnone]
    rfl
  · rw [firstTerminator?_plain_append hplain, hterminator.firstTerminator?_append,
      if_neg hterminator.ne_nil]

theorem exists_terminator_of_firstTerminator? {text terminator : List Char}
    (h : firstTerminator? text = some terminator) : ∃ rest, Terminator terminator rest := by
  obtain ⟨pieces, hlined, rfl⟩ := exists_lined text
  obtain ⟨piece, rest, rfl⟩ := List.exists_cons_of_ne_nil hlined.ne_nil
  rw [hlined.firstTerminator?_joined] at h
  obtain ⟨-, ⟨-, hnone⟩ | ⟨-, hterminator⟩⟩ := lined_cons_iff.mp hlined
  · exact absurd h (by simp [hnone])
  · rw [if_neg hterminator.ne_nil] at h
    exact ⟨joined rest, Option.some.inj h ▸ hterminator⟩

theorem Lined.terminator_eq_nil_iff {first rest : List Piece} {piece : Piece}
    (h : Lined (first ++ piece :: rest)) : piece.terminator = [] ↔ rest = [] := by
  rcases h.piece_cases.2 with ⟨hrest, hnone⟩ | ⟨hlined, hterminator⟩
  · simp only [hrest, hnone]
  · simp only [hlined.ne_nil, hterminator.ne_nil]

/-- The terminator of the new line does not join with the line below it. -/
theorem Lined.terminator_above {first rest : List Piece} {piece : Piece}
    (h : Lined (first ++ piece :: rest)) (text : List Char) :
    Terminator (terminatorLike text piece) (joined (piece :: rest)) := by
  obtain ⟨hplain, hending⟩ := h.piece_cases
  have hhead := head?_ne_lf_of_plain hplain
  rw [terminatorLike, joined, List.append_assoc]
  rcases hending with ⟨rfl, hnone⟩ | ⟨-, hterminator⟩
  · -- the last line: any terminator may stand in front of its content
    rw [if_pos hnone, hnone, joined, List.append_nil, List.append_nil]
    cases hfirst : firstTerminator? text with
    | none => exact .lf piece.content
    | some terminator =>
      obtain ⟨rest, hterminator⟩ := exists_terminator_of_firstTerminator? hfirst
      exact hterminator.in_front fun _ => hhead
  · rw [if_neg hterminator.ne_nil]
    refine hterminator.in_front fun hcr => head?_append_ne_lf hhead ?_
    rw [hcr]
    exact fun hlf => absurd (Option.some.inj hlf) (by decide)

/-! ## The comment through the table -/

section Table

variable {table : LineTable} {first rest : List Piece} {piece : Piece}

theorem Piece.stop_lt_next_iff (piece : Piece) (start : Nat) :
    (piece.lineAt start).stop < (piece.lineAt start).next ↔ piece.terminator ≠ [] := by
  have hzero : bytes piece.terminator = 0 ↔ piece.terminator = [] :=
    ⟨eq_nil_of_bytes_eq_zero, fun h => by rw [h, bytes]⟩
  rw [Piece.lineAt, ne_eq, ← hzero]
  dsimp only
  omega

/-- The first line with a terminator is the first line, or there is none. -/
theorem Holds.find?_terminated {pieces : List Piece} (h : Holds table pieces) :
    (table.lines.find? fun line => line.stop < line.next) = none ∧
        firstTerminator? table.text = none ∨
      ∃ line terminator, (table.lines.find? fun line => line.stop < line.next) = some line ∧
        part? line.stop line.next table.text = some terminator ∧
        firstTerminator? table.text = some terminator := by
  obtain ⟨piece, rest, rfl⟩ := List.exists_cons_of_ne_nil h.lined.ne_nil
  have hread := (show Holds table ([] ++ piece :: rest) from h).part?_terminator
  rw [h.lines_eq, linesOf, h.text_eq, h.lined.firstTerminator?_joined, ← h.text_eq]
  obtain ⟨-, ⟨rfl, hnone⟩ | ⟨-, hterminator⟩⟩ := lined_cons_iff.mp h.lined
  · left
    simp [linesOf, Piece.stop_lt_next_iff, hnone]
  · right
    refine ⟨piece.lineAt 0, piece.terminator, ?_, hread, if_neg hterminator.ne_nil⟩
    rw [List.find?_cons_of_pos]
    exact decide_eq_true ((piece.stop_lt_next_iff 0).mpr hterminator.ne_nil)

theorem Holds.terminator_eq (h : Holds table (first ++ piece :: rest)) :
    table.terminator (piece.lineAt (bytes (joined first))) =
      terminatorLike table.text piece := by
  unfold terminator terminatorLike
  by_cases hnone : piece.terminator = []
  · rw [if_neg (by simp [Piece.stop_lt_next_iff, hnone]), if_pos hnone]
    rcases h.find?_terminated with ⟨hfind, hfirst⟩ | ⟨line, found, hfind, hpart, hfirst⟩
    · rw [hfind, hfirst, Option.getD_none]
    · rw [hfind, hfirst, Option.getD_some]
      exact slice_of_part? hpart
  · rw [if_pos ((piece.stop_lt_next_iff _).mpr hnone), if_neg hnone]
    exact slice_of_part? h.part?_terminator

/-- The content of the line that silences a rule, above a line with this content. -/
def disableLine (content : List Char) (rule : String) : List Char :=
  (content.takeWhile fun c => c = ' ' || c = '\t') ++ "// eslint-disable-next-line ".toList ++
    rule.toList

theorem Holds.disableComment_eq (h : Holds table (first ++ piece :: rest)) {line : UInt32}
    (hindex : table.clampedIndex line = first.length) (rule : String) :
    table.disableComment line rule =
      { span := Span.emptyAt (bytes (joined first))
        newText := String.ofList
          (disableLine piece.content rule ++ terminatorLike table.text piece) } := by
  have hlength : min (max line.toNat 1 - 1) (table.lineCount - 1) = first.length := by
    rw [← hindex, clampedIndex]
    omega
  have hcontent := slice_of_part? h.part?_content
  simp only [disableComment, hlength, h.getElem?_lines, Option.getD_some, indent, hcontent,
    h.terminator_eq]
  rfl

end Table

/-! ## One line more -/

theorem plain_of_any_eq_false {content : List Char} (h : content.any isBreak = false) :
    ∀ c ∈ content, isBreak c = false := by
  intro c hc
  exact Bool.eq_false_iff.mpr (List.any_eq_false.mp h c hc)

theorem isBreak_of_mem_disableLine {content : List Char} {rule : String}
    (hrule : ∀ c ∈ rule.toList, isBreak c = false) :
    ∀ c ∈ disableLine content rule, isBreak c = false := by
  have hindent : ∀ c ∈ content.takeWhile (fun c => c = ' ' || c = '\t'), isBreak c = false := by
    intro c hc
    have hblank := List.all_eq_true.mp List.all_takeWhile c hc
    simp only [Bool.or_eq_true, decide_eq_true_eq] at hblank
    rcases hblank with rfl | rfl <;> decide
  have hmark : ∀ c ∈ "// eslint-disable-next-line ".toList, isBreak c = false :=
    plain_of_any_eq_false (by decide)
  intro c hc
  rcases List.mem_append.mp hc with hc | hc
  · rcases List.mem_append.mp hc with hc | hc
    · exact hindent c hc
    · exact hmark c hc
  · exact hrule c hc

theorem disableLine_ne_nil (content : List Char) (rule : String) :
    disableLine content rule ≠ [] := by
  intro hnil
  have hmark := (List.append_eq_nil_iff.mp (List.append_eq_nil_iff.mp hnil).1).2
  exact absurd hmark (by decide)

/-- The new text is the old one with the comment as a piece more. -/
theorem Holds.applyAll_disableComment {first rest : List Piece} {piece : Piece} {text : String}
    (h : Holds (ofText text) (first ++ piece :: rest)) {line : UInt32}
    (hindex : (ofText text).clampedIndex line = first.length) (rule : String) :
    (Edit.applyAll text [(ofText text).disableComment line rule]).toList =
      joined (first ++ ⟨disableLine piece.content rule, terminatorLike text.toList piece⟩ ::
        piece :: rest) := by
  have htext : text.toList = joined (first ++ piece :: rest) := h.text_eq
  have hsplice := Patch.splice_middle (joined first) [] (joined (piece :: rest))
    (String.ofList (disableLine piece.content rule ++ terminatorLike text.toList piece))
  rw [List.append_nil, bytes, ← joined_append, ← htext] at hsplice
  rw [Edit.toList_applyAll_singleton, h.disableComment_eq hindex]
  refine hsplice.trans ?_
  rw [String.toList_ofList, joined_append]
  simp only [joined, List.append_assoc]

/-- Above the line that the line number leads to, the text gets one line: the
spaces and tabs of that line, the comment and the rule, ended like that line, or
like the first line of the text when that line is the last one and has no
terminator, or by LF when no line has one.  All other lines keep their contents
and their terminators. -/
theorem disableComment_inserts_line (text : String) (line : UInt32) (rule : String)
    (hrule : ∀ c ∈ rule.toList, isBreak c = false) :
    let old := ofText text
    let new := ofText (Edit.applyAll text [old.disableComment line rule])
    let index := min (max line.toNat 1) old.lineCount - 1
    new.lineCount = old.lineCount + 1 ∧
      (∀ j, (old.piece? j).isSome = true ↔ j < old.lineCount) ∧
      (∀ j < index, new.piece? j = old.piece? j) ∧
      (∃ piece, old.piece? index = some piece ∧
        (piece.terminator = [] ↔ index + 1 = old.lineCount) ∧
        new.piece? index =
          some ⟨disableLine piece.content rule, terminatorLike text.toList piece⟩) ∧
      ∀ j, index ≤ j → new.piece? (j + 1) = old.piece? j := by
  intro old new index
  obtain ⟨pieces, hold⟩ : ∃ pieces, Holds old pieces := exists_holds text.toList
  have hcount := hold.lineCount_eq
  obtain ⟨first, piece, rest, rfl, hlength⟩ := exists_split (hold.clampedIndex_lt line)
  have hindex : index = first.length := hlength.symm
  have hnew : Holds new (first ++ ⟨disableLine piece.content rule,
      terminatorLike text.toList piece⟩ :: piece :: rest) := by
    show Holds (ofChars (Edit.applyAll text [old.disableComment line rule]).toList) _
    rw [hold.applyAll_disableComment hlength.symm]
    exact (hold.lined.insert (isBreak_of_mem_disableLine hrule) (disableLine_ne_nil _ _)
      (hold.lined.terminator_above text.toList)).holds
  refine ⟨?_, fun j => ?_, fun j hj => ?_, ⟨piece, ?_, ?_, ?_⟩, fun j hj => ?_⟩
  · rw [hnew.lineCount_eq, hcount]
    simp only [List.length_append, List.length_cons]
    omega
  · rw [hold.piece?_eq, hcount]
    simp
  · rw [hnew.piece?_eq, hold.piece?_eq, List.getElem?_append_left (by omega),
      List.getElem?_append_left (by omega)]
  · rw [hold.piece?_eq, hindex, getElem?_split]
  · rw [hold.lined.terminator_eq_nil_iff, hcount, hindex, List.length_append, List.length_cons,
      ← List.length_eq_zero_iff]
    omega
  · rw [hnew.piece?_eq, hindex, getElem?_split]
  · rw [hnew.piece?_eq, hold.piece?_eq, List.getElem?_append_right (by omega),
      List.getElem?_append_right (by omega), Nat.sub_add_comm (by omega), List.getElem?_cons_succ]

/-- A line number past the end, above a last line that has an indentation and no
terminator. -/
theorem disableComment_inserts_line_last :
    let old := ofText "x\r\n\ty"
    let new := ofText (Edit.applyAll "x\r\n\ty" [old.disableComment 9 "semi"])
    (∀ c ∈ "semi".toList, isBreak c = false) ∧ old.lineCount = 2 ∧ new.lineCount = 3 ∧
      new.piece? 0 = old.piece? 0 ∧
      (∃ piece, old.piece? 1 = some piece ∧ piece.terminator = [] ∧
        new.piece? 1 = some ⟨disableLine piece.content "semi", ['\r', '\n']⟩) ∧
      new.piece? 2 = old.piece? 1 := by
  intro old new
  have hrule : ∀ c ∈ "semi".toList, isBreak c = false := plain_of_any_eq_false (by decide)
  have hcount : old.lineCount = 2 := by decide
  have hindex : min (max (9 : UInt32).toNat 1) old.lineCount - 1 = 1 := by decide
  obtain ⟨hmore, -, hbefore, ⟨piece, hpiece, hlast, hnew⟩, hafter⟩ :=
    disableComment_inserts_line "x\r\n\ty" 9 "semi" hrule
  rw [hindex] at hbefore hpiece hlast hnew hafter
  have hnone := hlast.mpr (by decide)
  refine ⟨hrule, hcount, hmore.trans (by rw [hcount]), hbefore 0 (by decide),
    ⟨piece, hpiece, hnone, ?_⟩, hafter 1 (Nat.le_refl 1)⟩
  have hending : terminatorLike "x\r\n\ty".toList piece = ['\r', '\n'] := by
    rw [terminatorLike, if_pos hnone]
    decide
  rw [← hending]
  exact hnew

end LintLayer.LineTable
