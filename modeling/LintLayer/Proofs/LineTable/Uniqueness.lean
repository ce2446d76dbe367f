import LintLayer.Proofs.LineTable.Position
import LintLayer.Proofs.Text.Boundary
import Mathlib.Data.List.Chain
import Mathlib.Data.Nat.Find

/-!
# The only tiling of a text

`TilesFrom` says field by field what a list of lines must satisfy to divide a
text: where it begins and ends, that nothing is left out between two lines, that
a content holds no line break, and what may stand at the end of a line.  No field
says how the lines are found.

* `TilesFrom.tiled` reads the lines off the fields, one line at a time, and
  `Tiled.eq_scan` leaves the scanner no other answer.  So there is one such list.
* `scanBytes_utf8` finds the same lines byte by byte.  No byte of a longer
  character looks like a line break.
* `Holds.inLine_iff` says which line the search through the starts finds: the
  only one that the offset is in.
-/

namespace LintLayer

/-! ## Bytes and parts of a text -/

namespace Text

/-- The bytes of a text. -/
def utf8 (cs : List Char) : List UInt8 :=
  cs.flatMap String.utf8EncodeChar

theorem utf8_toList (text : String) : utf8 text.toList = text.toUTF8.data.toList := by
  rw [String.toUTF8_eq_toByteArray, ← String.utf8Encode_toList, List.utf8Encode,
    List.data_toByteArray]
  rfl

theorem utf8_cons (c : Char) (cs : List Char) :
    utf8 (c :: cs) = String.utf8EncodeChar c ++ utf8 cs :=
  List.flatMap_cons

theorem ne_ofNat_of_lt {b : UInt8} (hb : b.toNat < 0x80) {n : Nat} (hlow : 0x80 ≤ n)
    (hhigh : n < 0x100) : b ≠ UInt8.ofNat n := by
  rintro rfl
  rw [UInt8.toNat_ofNat'] at hb
  omega

/-- A byte below 80 is a character of its own. -/
theorem toNat_eq_of_mem_utf8EncodeChar {c : Char} {b : UInt8} (hmem : b ∈ String.utf8EncodeChar c)
    (hb : b.toNat < 0x80) : c.toNat = b.toNat := by
  unfold String.utf8EncodeChar at hmem
  dsimp only at hmem
  split at hmem
  · rw [List.mem_singleton.mp hmem, UInt8.toNat_ofNat']
    show c.val.toNat = _
    omega
  · -- a lead byte is at least C0, and a later byte at least 80
    have hlead2 : ∀ n, b ≠ UInt8.ofNat (n % 32 + 192) := fun n =>
      ne_ofNat_of_lt hb (by omega) (by omega)
    have hlead3 : ∀ n, b ≠ UInt8.ofNat (n % 16 + 224) := fun n =>
      ne_ofNat_of_lt hb (by omega) (by omega)
    have hlead4 : ∀ n, b ≠ UInt8.ofNat (n % 8 + 240) := fun n =>
      ne_ofNat_of_lt hb (by omega) (by omega)
    have hlater : ∀ n, b ≠ UInt8.ofNat (n % 64 + 128) := fun n =>
      ne_ofNat_of_lt hb (by omega) (by omega)
    split_ifs at hmem <;>
      simp only [List.mem_cons, List.not_mem_nil, hlead2, hlead3, hlead4, hlater, or_false] at hmem

end Text

namespace LineTable

open Text

variable {table : LineTable} {pieces : List Piece}

/-- A part is a piece of the text between two boundaries. -/
theorem part?_eq_some_iff {start stop : Nat} {text part : List Char} :
    part? start stop text = some part ↔
      ∃ before after, text = before ++ part ++ after ∧ bytes before = start ∧
        bytes before + bytes part = stop := by
  constructor
  · intro h
    unfold part? at h
    split at h
    · obtain ⟨⟨before, rest⟩, hcut, hmiddle⟩ := Option.bind_eq_some_iff.mp h
      obtain ⟨⟨middle, after⟩, hrest, hpart⟩ := Option.bind_eq_some_iff.mp hmiddle
      obtain rfl : middle = part := Option.some.inj hpart
      obtain ⟨rfl, hbefore⟩ := cut?_eq_some_iff.mp hcut
      obtain ⟨rfl, hlength⟩ := cut?_eq_some_iff.mp hrest
      exact ⟨before, after, (List.append_assoc _ _ _).symm, hbefore, by omega⟩
    · simp at h
  · rintro ⟨before, after, rfl, rfl, rfl⟩
    exact part?_append before part after

/-- Behind `past`, a part is a beginning of what is left. -/
theorem exists_append_of_part? {stop : Nat} {past rest part : List Char}
    (h : part? (bytes past) stop (past ++ rest) = some part) :
    ∃ after, rest = part ++ after ∧ stop = bytes past + bytes part := by
  obtain ⟨before, after, hparts, hbefore, hstop⟩ := part?_eq_some_iff.mp h
  rw [List.append_assoc] at hparts
  obtain ⟨rfl, hrest⟩ := append_inj_of_bytes_eq hparts hbefore.symm
  exact ⟨after, hrest, hstop.symm⟩

/-! ## Tilings -/

/-- The lines divide the text from byte `start` on: the first one starts there, each
next one where the one before it is over, and the last one ends with the text.  The
offsets of a line are ordered boundaries.  No content holds a line break, and all
lines but the last have a terminator. -/
structure TilesFrom (text : List Char) (start : Nat) (lines : List Line) : Prop where
  first_start : lines.head?.map Line.start = some start
  next_start : lines.IsChain fun line later => line.next = later.start
  last_stop : ∀ line, lines.getLast? = some line →
    line.stop = bytes text ∧ line.next = bytes text
  ordered : ∀ line ∈ lines, line.start ≤ line.stop ∧ line.stop ≤ line.next
  boundaries : ∀ line ∈ lines,
    Boundary text line.start ∧ Boundary text line.stop ∧ Boundary text line.next
  plain : ∀ line ∈ lines, ∃ content, part? line.start line.stop text = some content ∧
    ∀ c ∈ content, isBreak c = false
  terminated : ∀ line ∈ lines.dropLast, ∃ terminator rest,
    part? line.stop line.next text = some terminator ∧
      part? line.next (bytes text) text = some rest ∧ Terminator terminator rest

/-- The lines behind the first one divide the text from their own start on. -/
theorem TilesFrom.tail {text : List Char} {start : Nat} {line later : Line} {more : List Line}
    (h : TilesFrom text start (line :: later :: more)) :
    TilesFrom text line.next (later :: more) where
  first_start := by
    rw [(List.isChain_cons_cons.mp h.next_start).1]
    rfl
  next_start := (List.isChain_cons_cons.mp h.next_start).2
  last_stop last hlast := h.last_stop last (by rwa [List.getLast?_cons_cons])
  ordered other hother := h.ordered other (List.mem_cons_of_mem line hother)
  boundaries other hother := h.boundaries other (List.mem_cons_of_mem line hother)
  plain other hother := h.plain other (List.mem_cons_of_mem line hother)
  terminated other hother := by
    apply h.terminated other
    rw [List.dropLast_cons_cons]
    exact List.mem_cons_of_mem line hother

/-- The fields leave no choice: one line after the other, they give its content
and its terminator.  `past` is the text in front of the lines. -/
theorem TilesFrom.tiled {past rest : List Char} {lines : List Line}
    (h : TilesFrom (past ++ rest) (bytes past) lines) : Tiled (bytes past) rest lines := by
  induction lines generalizing past rest with
  | nil => exact absurd h.first_start (by simp)
  | cons line lines ih =>
    rcases line with ⟨start, stop, next⟩
    obtain rfl : start = bytes past := Option.some.inj h.first_start
    obtain ⟨content, hcontent, hplain⟩ := h.plain _ List.mem_cons_self
    obtain ⟨after, rfl, rfl⟩ := exists_append_of_part? hcontent
    cases lines with
    | nil =>
      obtain ⟨hstop, hnext⟩ := h.last_stop ⟨bytes past, bytes past + bytes content, next⟩ rfl
      simp only [bytes_append] at hstop hnext
      obtain rfl : after = [] := eq_nil_of_bytes_eq_zero (by omega)
      rw [List.append_nil, hnext, ← hstop]
      exact .last hplain
    | cons later more =>
      obtain ⟨terminator, behind, hending, hbehind, hterminator⟩ :=
        h.terminated _ (by rw [List.dropLast_cons_cons]; exact List.mem_cons_self)
      dsimp only at hending hbehind
      rw [← List.append_assoc, ← bytes_append] at hending
      obtain ⟨rest, rfl, rfl⟩ := exists_append_of_part? hending
      rw [← bytes_append (past ++ content), ← List.append_assoc, ← List.append_assoc] at hbehind
      obtain ⟨left, rfl, hend⟩ := exists_append_of_part? hbehind
      obtain rfl : left = [] := by
        apply eq_nil_of_bytes_eq_zero
        simp only [bytes_append] at hend
        omega
      have htail : TilesFrom (past ++ content ++ terminator ++ behind)
          (bytes (past ++ content ++ terminator)) (later :: more) := by
        simpa [Nat.add_assoc] using h.tail
      have htiled := ih htail
      rw [bytes_append, bytes_append] at htiled
      rw [List.append_nil, ← List.append_assoc, bytes_append]
      exact .line hplain hterminator htiled

/-- A line in front of a tiling. -/
theorem TilesFrom.cons {text content terminator rest : List Char} {start stop next : Nat}
    {lines : List Line} (h : TilesFrom text next lines)
    (hcontent : part? start stop text = some content) (hplain : ∀ c ∈ content, isBreak c = false)
    (hending : part? stop next text = some terminator)
    (hbehind : part? next (bytes text) text = some rest)
    (hterminator : Terminator terminator rest) :
    TilesFrom text start (⟨start, stop, next⟩ :: lines) := by
  obtain ⟨later, more, rfl⟩ : ∃ later more, lines = later :: more := by
    cases lines with
    | nil => exact absurd h.first_start (by simp)
    | cons later more => exact ⟨later, more, rfl⟩
  have hnext : next = later.start := (Option.some.inj h.first_start).symm
  obtain ⟨before, after, htext, hstart, hstop⟩ := part?_eq_some_iff.mp hcontent
  obtain ⟨upTo, behind, htext', hupTo, hends⟩ := part?_eq_some_iff.mp hending
  refine
    { first_start := rfl
      next_start := List.isChain_cons_cons.mpr ⟨hnext, h.next_start⟩
      last_stop := fun last hlast => h.last_stop last (by rwa [List.getLast?_cons_cons] at hlast)
      ordered := List.forall_mem_cons.mpr ⟨?_, h.ordered⟩
      boundaries := List.forall_mem_cons.mpr ⟨?_, h.boundaries⟩
      plain := List.forall_mem_cons.mpr ⟨⟨content, hcontent, hplain⟩, h.plain⟩
      terminated := ?_ }
  · dsimp only
    omega
  · refine ⟨⟨before, content ++ after, by rw [htext, List.append_assoc], hstart⟩,
      ⟨upTo, terminator ++ behind, by rw [htext', List.append_assoc], hupTo⟩, ?_⟩
    show Boundary text next
    rw [hnext]
    exact (h.boundaries later List.mem_cons_self).1
  · rw [List.dropLast_cons_cons]
    exact List.forall_mem_cons.mpr
      ⟨⟨terminator, rest, hending, hbehind, hterminator⟩, h.terminated⟩

/-- The last line of a text, alone. -/
theorem tilesFrom_last (past : List Char) {content : List Char}
    (hplain : ∀ c ∈ content, isBreak c = false) :
    TilesFrom (past ++ content) (bytes past)
      [⟨bytes past, bytes past + bytes content, bytes past + bytes content⟩] := by
  have hend : Boundary (past ++ content) (bytes past + bytes content) :=
    ⟨past ++ content, [], (List.append_nil _).symm, bytes_append past content⟩
  have hcontent := part?_append past content []
  rw [List.append_nil] at hcontent
  refine
    { first_start := rfl
      next_start := List.isChain_singleton _
      last_stop := fun line hline => ?_
      ordered := fun line hline => ?_
      boundaries := fun line hline => ?_
      plain := fun line hline => ?_
      terminated := fun line hline => absurd hline (by simp) }
  · obtain rfl := Option.some.inj hline
    rw [bytes_append]
    exact ⟨rfl, rfl⟩
  all_goals obtain rfl := List.mem_singleton.mp hline
  · exact ⟨Nat.le_add_right _ _, Nat.le_refl _⟩
  · exact ⟨⟨past, content, rfl, rfl⟩, hend, hend⟩
  · exact ⟨content, hcontent, hplain⟩

theorem Tiled.tilesFrom {start : Nat} {rest : List Char} {lines : List Line}
    (h : Tiled start rest lines) (past : List Char) (hstart : start = bytes past) :
    TilesFrom (past ++ rest) start lines := by
  induction h generalizing past with
  | @last start content hplain =>
    rw [hstart]
    exact tilesFrom_last past hplain
  | @line start content terminator rest lines hplain hterminator tail ih =>
    subst hstart
    have htail := ih (past ++ content ++ terminator) (by simp only [bytes_append])
    have hcontent := part?_append past content (terminator ++ rest)
    have hending := part?_append (past ++ content) terminator rest
    have hbehind := part?_append (past ++ content ++ terminator) rest []
    rw [← bytes_append (past ++ content ++ terminator), List.append_nil, bytes_append _ terminator]
      at hbehind
    rw [bytes_append] at hending hbehind
    rw [← List.append_assoc] at hcontent
    rw [← List.append_assoc, ← List.append_assoc]
    exact htail.cons hcontent hplain hending hbehind hterminator

/-- The scanner has no other answer. -/
theorem Tiled.eq_scan {start : Nat} {text : List Char} {lines : List Line}
    (h : Tiled start text lines) : lines = scan start start text := by
  induction h with
  | @last start content hplain =>
    have hscan := scan_content_append hplain start start []
    rw [List.append_nil] at hscan
    rw [hscan, scan]
  | @line start content terminator rest lines hplain hterminator tail ih =>
    rw [List.append_assoc, scan_content_append hplain, hterminator.scan_append, ← ih]

theorem tilesFrom_iff {text : List Char} {lines : List Line} :
    TilesFrom text 0 lines ↔ lines = scan 0 0 text := by
  constructor
  · intro h
    exact (show Tiled (bytes []) text lines from TilesFrom.tiled h).eq_scan
  · rintro rfl
    exact (scan_tiled text).tilesFrom [] rfl

/-! ## The scan of the bytes -/

/-- The lines of the bytes from `pos` on, in a line that began at `start`.  A CR
looks one byte ahead. -/
def scanBytes (start pos : Nat) : List UInt8 → List Line
  | [] => [⟨start, pos, pos⟩]
  | 0x0A :: bs => ⟨start, pos, pos + 1⟩ :: scanBytes (pos + 1) (pos + 1) bs
  | 0x0D :: 0x0A :: bs => ⟨start, pos, pos + 2⟩ :: scanBytes (pos + 2) (pos + 2) bs
  | 0x0D :: bs => ⟨start, pos, pos + 1⟩ :: scanBytes (pos + 1) (pos + 1) bs
  | _ :: bs => scanBytes start (pos + 1) bs

theorem scanBytes_plain_append {here : List UInt8} (hlf : 0x0A ∉ here) (hcr : 0x0D ∉ here)
    (start pos : Nat) (rest : List UInt8) :
    scanBytes start pos (here ++ rest) = scanBytes start (pos + here.length) rest := by
  induction here generalizing pos with
  | nil => rfl
  | cons b here ih =>
    rw [List.mem_cons, not_or] at hlf hcr
    rw [List.cons_append, scanBytes, ih hlf.2 hcr.2, List.length_cons, Nat.add_assoc,
      Nat.add_comm 1]
    · exact fun h => hlf.1 h.symm
    · intro _ h
      exact absurd h.symm hcr.1
    · exact fun h => hcr.1 h.symm

/-- A byte of a line break is found in no other character. -/
theorem notMem_utf8EncodeChar {c d : Char} (hd : d.toNat < 0x80) (hne : c ≠ d) :
    UInt8.ofNat d.toNat ∉ String.utf8EncodeChar c := by
  intro hmem
  have hbyte : (UInt8.ofNat d.toNat).toNat = d.toNat := by
    rw [UInt8.toNat_ofNat']
    omega
  have hsame := toNat_eq_of_mem_utf8EncodeChar hmem (by rwa [hbyte])
  rw [hbyte] at hsame
  exact hne (Char.toNat_inj.mp hsame)

theorem exists_eq_lf_cons {cs : List Char} {rest : List UInt8} (h : utf8 cs = 0x0A :: rest) :
    ∃ later, cs = '\n' :: later := by
  cases cs with
  | nil => exact absurd h (by simp [utf8])
  | cons c cs =>
    obtain ⟨b, more, hc⟩ := List.exists_cons_of_ne_nil (String.utf8EncodeChar_ne_nil (c := c))
    rw [utf8_cons, hc, List.cons_append, List.cons.injEq] at h
    have hlf : c = '\n' := by
      by_contra hne
      have hout := notMem_utf8EncodeChar (show '\n'.toNat < 0x80 by decide) hne
      rw [hc, h.1] at hout
      exact hout List.mem_cons_self
    exact ⟨cs, by rw [hlf]⟩

/-- The scan of the bytes of a text finds its lines. -/
theorem scanBytes_utf8 (start pos : Nat) (text : List Char) :
    scanBytes start pos (utf8 text) = scan start pos text := by
  have hlf : String.utf8EncodeChar '\n' = [0x0A] := rfl
  have hcr : String.utf8EncodeChar '\r' = [0x0D] := rfl
  induction start, pos, text using scan.induct with
  | case1 start pos => rfl
  | case2 start pos cs ih => rw [utf8_cons, hlf, List.singleton_append, scanBytes, scan, ih]
  | case3 start pos cs ih =>
    rw [utf8_cons, utf8_cons, hlf, hcr, List.singleton_append, List.singleton_append, scanBytes,
      scan, ih]
  | case4 start pos cs hlone ih =>
    rw [utf8_cons, hcr, List.singleton_append, scan_cr_cons hlone, scanBytes, ih]
    intro rest hrest
    obtain ⟨later, hlater⟩ := exists_eq_lf_cons hrest
    exact hlone later hlater
  | case5 start pos c cs hne hcrlf hne' ih =>
    rw [scan_plain_cons hne hne', utf8_cons, scanBytes_plain_append, String.length_utf8EncodeChar,
      ih]
    · exact notMem_utf8EncodeChar (show '\n'.toNat < 0x80 by decide) hne
    · exact notMem_utf8EncodeChar (show '\r'.toNat < 0x80 by decide) hne'

/-! ## The line of an offset -/

theorem Holds.next_eq (h : Holds table pieces) {index : Nat} {line : Line}
    (hline : table.lines[index]? = some line) : line.next = startOf pieces (index + 1) := by
  obtain ⟨first, piece, rest, rfl, rfl⟩ := exists_split (h.lt_of_getElem? hline)
  rw [h.getElem?_lines] at hline
  rw [startOf_succ_split, ← Option.some.inj hline, Piece.lineAt]

/-- Every offset is in a line: the last one that does not start behind it. -/
theorem exists_inLine (hpieces : 0 < pieces.length) (offset : Nat) :
    ∃ index < pieces.length, InLine pieces index offset := by
  let P := fun index => startOf pieces index ≤ offset
  have hfirst : P 0 := Nat.zero_le offset
  have hle := Nat.findGreatest_le (P := P) (pieces.length - 1)
  refine ⟨Nat.findGreatest P (pieces.length - 1), by omega,
    Nat.findGreatest_spec (P := P) (Nat.zero_le _) hfirst, fun hlast => ?_⟩
  have hlater : ¬ P (Nat.findGreatest P (pieces.length - 1) + 1) :=
    Nat.findGreatest_is_greatest (Nat.lt_succ_self _) (by omega)
  exact Nat.lt_of_not_le hlater

theorem Holds.lineOf_spec (h : Holds table pieces) (offset : Nat) :
    table.lineOf offset < pieces.length ∧ InLine pieces (table.lineOf offset) offset := by
  obtain ⟨index, hlt, hin⟩ := exists_inLine h.length_pos offset
  rw [h.lineOf_of_inLine hlt hin]
  exact ⟨hlt, hin⟩

/-- The search finds the only line that the offset is in. -/
theorem Holds.inLine_iff (h : Holds table pieces) {index offset : Nat}
    (hindex : index < pieces.length) :
    InLine pieces index offset ↔ index = table.lineOf offset := by
  constructor
  · intro hin
    exact (h.lineOf_of_inLine hindex hin).symm
  · rintro rfl
    exact (h.lineOf_spec offset).2

/-- Before the end of the text, the line of an offset is the one whose bytes it is
among. -/
theorem Holds.lineOf_iff (h : Holds table pieces) {offset : Nat}
    (hoffset : offset < bytes table.text) (index : Nat) :
    (∃ line, table.lines[index]? = some line ∧ line.start ≤ offset ∧ offset < line.next) ↔
      index = table.lineOf offset := by
  constructor
  · rintro ⟨line, hline, hstart, hnext⟩
    rw [h.start_eq hline] at hstart
    rw [h.next_eq hline] at hnext
    exact (h.inLine_iff (h.lt_of_getElem? hline)).mp ⟨hstart, fun _ => hnext⟩
  · rintro rfl
    obtain ⟨hlt, hstart, hnext⟩ := h.lineOf_spec offset
    obtain ⟨line, hline, hlineStart, -⟩ := h.exists_line hlt
    refine ⟨line, hline, by rwa [hlineStart], ?_⟩
    rw [h.next_eq hline]
    rcases Nat.lt_or_ge (table.lineOf offset + 1) pieces.length with hinner | hlast
    · exact hnext hinner
    · rwa [startOf_of_length_le hlast, ← h.text_eq]

/-- From the end of the text on, it is the last one. -/
theorem Holds.lineOf_of_bytes_le (h : Holds table pieces) {offset : Nat}
    (hoffset : bytes table.text ≤ offset) : table.lineOf offset + 1 = table.lineCount := by
  obtain ⟨hlt, -, hnext⟩ := h.lineOf_spec offset
  rw [h.lineCount_eq]
  by_contra hne
  have hlater := hnext (by omega)
  have hend := startOf_mono pieces (show table.lineOf offset + 1 ≤ pieces.length by omega)
  rw [startOf_of_length_le (Nat.le_refl pieces.length), ← h.text_eq] at hend
  omega

theorem Holds.pairwise_start (h : Holds table pieces) :
    (table.lines.map Line.start).Pairwise (· < ·) := by
  rw [List.pairwise_map, List.pairwise_iff_getElem]
  intro index later hindex hlater hlt
  rw [h.start_eq (List.getElem?_eq_getElem hindex), h.start_eq (List.getElem?_eq_getElem hlater)]
  rw [h.lines_eq, length_linesOf] at hlater
  exact h.lined.startOf_lt hlt hlater

/-- Whoever looks for the place where the starts pass the offset, from the front or
by halves, finds it behind the line of the offset. -/
theorem Holds.passes_iff (h : Holds table pieces) (offset : Nat) {count : Nat}
    (hcount : count ≤ table.lineCount) :
    (∀ index line, table.lines[index]? = some line → (line.start ≤ offset ↔ index < count)) ↔
      count = table.lineOf offset + 1 := by
  obtain ⟨hlt, hin⟩ := h.lineOf_spec offset
  rw [h.lineCount_eq] at hcount
  constructor
  · intro hpasses
    have hstarts : ∀ index < pieces.length, index ≤ table.lineOf offset ↔ index < count := by
      intro index hindex
      obtain ⟨line, hline, hstart, -⟩ := h.exists_line hindex
      rw [← hin.startOf_le_iff hindex, ← hstart]
      exact hpasses index line hline
    have hfound := (hstarts _ hlt).mp (Nat.le_refl _)
    by_contra hne
    have hpast := (hstarts (table.lineOf offset + 1) (by omega)).mpr (by omega)
    omega
  · rintro rfl index line hline
    rw [h.start_eq hline, hin.startOf_le_iff (h.lt_of_getElem? hline)]
    omega

/-! ## The only tiling -/

/-- The lines of the table divide the text, and no other list of lines does.  They
are also what a scan of the bytes finds, and their starts grow.  So the place where
the starts pass an offset is behind its line, and this is the only line with the
offset among its bytes, or the last line from the end of the text on. -/
theorem lines_only_tiling (text : String) :
    let table := ofText text
    (∀ lines, TilesFrom text.toList 0 lines ↔ lines = table.lines) ∧
      scanBytes 0 0 text.toUTF8.data.toList = table.lines ∧
      (table.lines.map Line.start).Pairwise (· < ·) ∧
      (∀ offset count, count ≤ table.lineCount →
        ((∀ index line, table.lines[index]? = some line →
            (line.start ≤ offset ↔ index < count)) ↔
          count = table.lineOf offset + 1)) ∧
      (∀ offset < bytes text.toList, ∀ index,
        (∃ line, table.lines[index]? = some line ∧ line.start ≤ offset ∧ offset < line.next) ↔
          index = table.lineOf offset) ∧
      ∀ offset, bytes text.toList ≤ offset → table.lineOf offset + 1 = table.lineCount := by
  intro table
  obtain ⟨pieces, hholds⟩ : ∃ pieces, Holds table pieces := exists_holds text.toList
  have hbytes : scanBytes 0 0 text.toUTF8.data.toList = table.lines := by
    rw [← utf8_toList]
    exact scanBytes_utf8 0 0 text.toList
  exact ⟨fun lines => tilesFrom_iff, hbytes, hholds.pairwise_start,
    fun offset count => hholds.passes_iff offset, fun offset => hholds.lineOf_iff,
    fun offset => hholds.lineOf_of_bytes_le⟩

/-- A CRLF between a character of two bytes and one of four, an LF in front of a
lone CR, and an empty last line. -/
theorem lines_only_tiling_mixed :
    let table := ofText "é\r\n😀\n\r"
    let lines : List Line := [⟨0, 2, 4⟩, ⟨4, 8, 9⟩, ⟨9, 9, 10⟩, ⟨10, 10, 10⟩]
    TilesFrom "é\r\n😀\n\r".toList 0 lines ∧ 3 < bytes "é\r\n😀\n\r".toList ∧
      (∃ line, table.lines[table.lineOf 3]? = some line ∧ line.start ≤ 3 ∧ 3 < line.next) ∧
      bytes "é\r\n😀\n\r".toList ≤ 99 ∧ table.lineOf 99 + 1 = table.lineCount := by
  intro table lines
  obtain ⟨htiles, -, -, -, hinside, hpast⟩ := lines_only_tiling "é\r\n😀\n\r"
  have hoffset : 3 < bytes "é\r\n😀\n\r".toList := by decide
  have hend : bytes "é\r\n😀\n\r".toList ≤ 99 := by decide
  exact ⟨(htiles lines).mpr (by decide), hoffset, (hinside 3 hoffset _).mpr rfl, hend,
    hpast 99 hend⟩

end LineTable

end LintLayer
