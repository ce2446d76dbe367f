import LintLayer.LineTable
import LintLayer.Proofs.Text.Measure

/-!
# The lines tile the text

`Tiled start text lines` says what a list of lines is without a scanner: the
text is cut into contents and terminators, a content holds no line break,
and each line has the offsets of its content and of its terminator.  The
first line starts at byte `start`.

`scan_tiled` proves that the scanner produces exactly such lines.  Every
later fact about the line table is an induction over `Tiled`.
-/

namespace LintLayer.LineTable

open Text

/-- LF and CR end a line. -/
def isBreak (c : Char) : Bool :=
  c == '\n' || c == '\r'

/-- `terminator` ends a line in front of `rest`.  A CR in front of an LF is
never a terminator of its own. -/
inductive Terminator : List Char → List Char → Prop where
  | lf (rest) : Terminator ['\n'] rest
  | crlf (rest) : Terminator ['\r', '\n'] rest
  | cr (rest) (hlone : rest.head? ≠ some '\n') : Terminator ['\r'] rest

/-- `lines` are the lines of `text`, the first one starting at byte
`start`. -/
inductive Tiled : Nat → List Char → List Line → Prop where
  | last {start content} (hplain : ∀ c ∈ content, isBreak c = false) :
      Tiled start content [⟨start, start + bytes content, start + bytes content⟩]
  | line {start content terminator rest lines}
      (hplain : ∀ c ∈ content, isBreak c = false)
      (hterminator : Terminator terminator rest)
      (tail : Tiled (start + bytes content + bytes terminator) rest lines) :
      Tiled start (content ++ terminator ++ rest)
        (⟨start, start + bytes content, start + bytes content + bytes terminator⟩ :: lines)

@[simp] theorem bytes_lf : bytes ['\n'] = 1 := by decide

@[simp] theorem bytes_cr : bytes ['\r'] = 1 := by decide

@[simp] theorem bytes_crlf : bytes ['\r', '\n'] = 2 := by decide

theorem scan_cr_cons {start pos : Nat} {cs : List Char}
    (hlone : ∀ rest, cs = '\n' :: rest → False) :
    scan start pos ('\r' :: cs) = ⟨start, pos, pos + 1⟩ :: scan (pos + 1) (pos + 1) cs := by
  rw [scan]
  exact hlone

theorem scan_plain_cons {start pos : Nat} {c : Char} {cs : List Char} (hlf : c ≠ '\n')
    (hcr : c ≠ '\r') : scan start pos (c :: cs) = scan start (pos + c.utf8Size) cs := by
  rw [scan]
  · exact hlf
  · intro _ h
    exact absurd h hcr
  · exact hcr

/-- The scanner, in the middle of a line whose beginning is `content`,
produces the lines of that beginning and of the rest. -/
theorem scan_tiled_of_content (start pos : Nat) (cs content : List Char)
    (hplain : ∀ c ∈ content, isBreak c = false) (hpos : pos = start + bytes content) :
    Tiled start (content ++ cs) (scan start pos cs) := by
  induction start, pos, cs using scan.induct generalizing content with
  | case1 start pos =>
    rw [scan, List.append_nil, hpos]
    exact .last hplain
  | case2 start pos cs ih =>
    subst hpos
    have htail := ih [] (by simp) (by simp [bytes])
    rw [scan]
    simpa using Tiled.line hplain (.lf cs) (by simpa using htail)
  | case3 start pos cs ih =>
    subst hpos
    have htail := ih [] (by simp) (by simp [bytes])
    rw [scan]
    simpa using Tiled.line hplain (.crlf cs) (by simpa using htail)
  | case4 start pos cs hlone ih =>
    subst hpos
    have hhead : cs.head? ≠ some '\n' := by
      intro h
      obtain ⟨rest, hrest⟩ := List.head?_eq_some_iff.mp h
      exact hlone rest hrest
    have htail := ih [] (by simp) (by simp [bytes])
    rw [scan_cr_cons hlone]
    simpa using Tiled.line hplain (.cr cs hhead) (by simpa using htail)
  | case5 start pos c cs hlf hcrlf hcr ih =>
    have hbreak : isBreak c = false := by
      simp only [isBreak, Bool.or_eq_false_iff, beq_eq_false_iff_ne]
      exact ⟨hlf, hcr⟩
    have hgrown : ∀ d ∈ content ++ [c], isBreak d = false := by
      intro d hd
      rcases List.mem_append.mp hd with hd | hd
      · exact hplain d hd
      · rw [List.mem_singleton.mp hd]
        exact hbreak
    have htail := ih (content ++ [c]) hgrown (by simp only [bytes_append, bytes]; omega)
    rw [scan_plain_cons hlf hcr]
    simpa using htail

/-- The lines of a text tile it from its start. -/
theorem scan_tiled (text : List Char) : Tiled 0 text (scan 0 0 text) :=
  scan_tiled_of_content 0 0 text [] (by simp) rfl

end LintLayer.LineTable
