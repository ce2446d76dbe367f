import LintLayer.Edit
import LintLayer.Report.Finding

/-!
# The line table of a snapshot

The analyzer counts lines from one, columns in UTF-16 code units from one,
and fix ranges in UTF-16 code units of the whole text.  The table turns
them into byte offsets.  A line ends at LF, CRLF or a lone CR.  A position
outside the text is moved to the nearest place inside it.
-/

namespace LintLayer

/-- The byte offsets of one line: its start, the end of its content, and
the start of the next line. -/
structure Line where
  start : Nat
  stop : Nat
  next : Nat
  deriving DecidableEq, Repr

/-- A snapshot with its lines and the code units before each line. -/
structure LineTable where
  text : List Char
  lines : List Line
  unitStarts : List Nat
  ascii : Bool
  deriving Repr

namespace LineTable

/-- The lines of the characters from byte `pos` on, in a line that began at
`start`. -/
def scan (start pos : Nat) : List Char → List Line
  | [] => [⟨start, pos, pos⟩]
  | '\n' :: cs => ⟨start, pos, pos + 1⟩ :: scan (pos + 1) (pos + 1) cs
  | '\r' :: '\n' :: cs => ⟨start, pos, pos + 2⟩ :: scan (pos + 2) (pos + 2) cs
  | '\r' :: cs => ⟨start, pos, pos + 1⟩ :: scan (pos + 1) (pos + 1) cs
  | c :: cs => scan start (pos + c.utf8Size) cs

/-- The code units before each line, `before` units before the first.
`rest` is the text from the first of the lines on. -/
def unitStartsFrom (before : Nat) (rest : List Char) : List Line → List Nat
  | [] => []
  | line :: lines =>
    match Text.cut? (line.next - line.start) rest with
    | some (here, rest) => before :: unitStartsFrom (before + Text.units here) rest lines
    | none => before :: unitStartsFrom before [] lines

/-- The table of a list of characters. -/
def ofChars (text : List Char) : LineTable :=
  let lines := scan 0 0 text
  { text, lines, unitStarts := unitStartsFrom 0 text lines, ascii := Text.isAscii text }

/-- The table of a text. -/
def ofText (text : String) : LineTable :=
  ofChars text.toList

/-- The number of lines, at least one. -/
def lineCount (table : LineTable) : Nat :=
  table.lines.length

/-- The start of a line, counted from zero. -/
def lineStart? (table : LineTable) (index : Nat) : Option Nat :=
  table.lines[index]?.map Line.start

/-- The line that holds a byte offset, counted from zero.  An offset past
the end is in the last line. -/
def lineOf (table : LineTable) (offset : Nat) : Nat :=
  (table.lines.takeWhile fun line => line.start ≤ offset).length - 1

/-- The offset `units` code units after `start`, at most `limit`.  In a
surrogate pair it is the offset of the character. -/
def advance (table : LineTable) (start limit units : Nat) : Nat :=
  if table.ascii then min (start + units) limit
  else start + Text.bytes (Text.fitUnits units (Text.slice start limit table.text))

/-- The offset of the end of the last line. -/
def lastStop (table : LineTable) : Nat :=
  (table.lines.getLast?.map Line.stop).getD 0

/-- The offset of a line and a column, both counted from one.  There is
none without a line.  A line past the end is the end of the last line, and
a missing column is the end of the line. -/
def offset? (table : LineTable) (line column : Option UInt32) : Option Nat :=
  match line with
  | none => none
  | some line =>
    if line = 0 then none
    else match table.lines[line.toNat - 1]? with
      | none => some table.lastStop
      | some found =>
        match column with
        | none => some found.stop
        | some column => some (table.advance found.start found.stop (column.toNat - 1))

/-- The span of a finding.  A missing start is the start of the text, a
missing end is the start of the span. -/
def spanOf (table : LineTable) (finding : Finding) : Span :=
  let start := (table.offset? finding.line finding.column).getD 0
  let stop := (table.offset? finding.endLine finding.endColumn).getD start
  Span.ofBounds start stop

/-- The byte offset of an offset in code units of the whole text. -/
def offsetOfUnits (table : LineTable) (offset : Nat) : Nat :=
  if table.ascii then min offset (Text.bytes table.text)
  else
    let index := (table.unitStarts.takeWhile fun start => start ≤ offset).length - 1
    match table.lines[index]?, table.unitStarts[index]? with
    | some line, some before => table.advance line.start line.next (offset - before)
    | _, _ => 0

/-- The line and the column of a byte offset, both counted from one.  The
column counts characters.  An offset inside a character is the offset of
the character, and one past the end is the end. -/
def position (table : LineTable) (offset : Nat) : Nat × Nat :=
  let offset := Text.bytes (Text.fitBytes offset table.text)
  let line := table.lineOf offset
  let start := (table.lineStart? line).getD 0
  (line + 1, (Text.slice start offset table.text).length + 1)

/-- The terminator of a line.  A line without one takes the first
terminator of the text, or LF. -/
def terminator (table : LineTable) (line : Line) : List Char :=
  if line.stop < line.next then Text.slice line.stop line.next table.text
  else match table.lines.find? fun other => other.stop < other.next with
    | some other => Text.slice other.stop other.next table.text
    | none => ['\n']

/-- The spaces and tabs at the start of a line. -/
def indent (table : LineTable) (line : Line) : List Char :=
  (Text.slice line.start line.stop table.text).takeWhile fun c => c = ' ' || c = '\t'

/-- The comment that silences a rule on the line below it. -/
def disableMark : String := "// eslint-disable-next-line "

/-- The insertion of a line above `line`, counted from one, that silences
`rule`.  It has the indentation and the terminator of that line. -/
def disableComment (table : LineTable) (line : UInt32) (rule : String) : Edit :=
  let index := min ((max line.toNat 1) - 1) (table.lineCount - 1)
  let found := (table.lines[index]?).getD ⟨0, 0, 0⟩
  { span := Span.emptyAt found.start
    newText := String.ofList
      (table.indent found ++ disableMark.toList ++ rule.toList ++ table.terminator found) }

end LineTable

end LintLayer
