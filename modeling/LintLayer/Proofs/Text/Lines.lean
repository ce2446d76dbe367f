import LintLayer.Text.Blank
import LintLayer.Text.Measure
import Mathlib.Data.List.Basic
import Mathlib.Data.List.TakeWhile

/-!
# Lines and trimmed texts

The lines of an output text, said without the walk over its characters: `MadeOf`
puts a text together from its lines and their ends, and `madeOf_iff` says that the
walk finds these lines and no others.  A text that ends with a line is read apart
from what follows it (`lines_append`).

A trimmed text has no blank at its ends.  `exists_trim` cuts a text into blanks, its
trimmed form and blanks, and `trim_append` says that there is no other cut of this
kind.
-/

namespace LintLayer.Text

/-! ## Lines -/

/-- The lines that a text is made of.  A line ends with LF or CRLF; the last one may
have no end, and then it is not empty. -/
inductive MadeOf : List Char → List (List Char) → Prop where
  | nothing : MadeOf [] []
  | unended {line : List Char} (filled : line ≠ []) (single : '\n' ∉ line) : MadeOf line [line]
  | lf {line rest : List Char} {lines : List (List Char)} (single : '\n' ∉ line)
      (plain : line.getLast? ≠ some '\r') (further : MadeOf rest lines) :
      MadeOf (line ++ '\n' :: rest) (line :: lines)
  | crlf {line rest : List Char} {lines : List (List Char)} (single : '\n' ∉ line)
      (further : MadeOf rest lines) : MadeOf (line ++ '\r' :: '\n' :: rest) (line :: lines)

theorem dropReturn_concat (line : List Char) : dropReturn (line ++ ['\r']) = line := by
  rw [dropReturn, List.getLast?_concat, if_pos rfl, List.dropLast_concat]

theorem dropReturn_of_ne {line : List Char} (h : line.getLast? ≠ some '\r') :
    dropReturn line = line :=
  if_neg h

/-- Characters other than LF are added to the line that is read. -/
theorem linesFrom_append {line : List Char} (h : '\n' ∉ line) (current rest : List Char) :
    linesFrom current (line ++ rest) = linesFrom (line.reverse ++ current) rest := by
  induction line generalizing current with
  | nil => rfl
  | cons c line ih =>
    have hc : c ≠ '\n' := by
      rintro rfl
      simp at h
    have hrest : '\n' ∉ line := fun hmem => h (List.mem_cons_of_mem c hmem)
    rw [List.cons_append, linesFrom, ih hrest, List.reverse_cons, List.append_assoc,
      List.singleton_append]
    exact hc

/-- A line up to its LF is read first. -/
theorem lines_line_append {line : List Char} (h : '\n' ∉ line) (rest : List Char) :
    lines (line ++ '\n' :: rest) = dropReturn line :: lines rest := by
  rw [lines, linesFrom_append h, List.append_nil, linesFrom, List.reverse_reverse]
  rfl

theorem lines_crlf_append {line : List Char} (h : '\n' ∉ line) (rest : List Char) :
    lines (line ++ '\r' :: '\n' :: rest) = line :: lines rest := by
  have hreturn : '\n' ∉ line ++ ['\r'] := by simp [h]
  have hread := lines_line_append hreturn rest
  rw [dropReturn_concat, List.append_assoc] at hread
  exact hread

theorem lines_of_single {line : List Char} (hne : line ≠ []) (h : '\n' ∉ line) :
    lines line = [line] := by
  have hread := linesFrom_append h [] []
  rw [List.append_nil, List.append_nil] at hread
  rw [lines, hread, linesFrom, if_neg (by simpa using hne), List.reverse_reverse]

theorem lines_eq_of_madeOf {text : List Char} {found : List (List Char)}
    (h : MadeOf text found) : lines text = found := by
  induction h with
  | nothing => rfl
  | unended hfilled hsingle => exact lines_of_single hfilled hsingle
  | lf hsingle hplain _ ih => rw [lines_line_append hsingle, dropReturn_of_ne hplain, ih]
  | crlf hsingle _ ih => rw [lines_crlf_append hsingle, ih]

/-- Every text is made of the lines that are read from it. -/
theorem madeOf_lines (text : List Char) : MadeOf text (lines text) := by
  by_cases hmem : '\n' ∈ text
  · obtain ⟨line, rest, rfl, hsingle⟩ := List.eq_append_cons_of_mem hmem
    have further : MadeOf rest (lines rest) := madeOf_lines rest
    rw [lines_line_append hsingle]
    by_cases hreturn : line.getLast? = some '\r'
    · obtain ⟨front, rfl⟩ := List.getLast?_eq_some_iff.mp hreturn
      have hfront : '\n' ∉ front := fun h => hsingle (List.mem_append_left _ h)
      rw [dropReturn_concat, List.append_assoc]
      exact .crlf hfront further
    · rw [dropReturn_of_ne hreturn]
      exact .lf hsingle hreturn further
  · by_cases hne : text = []
    · subst hne
      exact .nothing
    · rw [lines_of_single hne hmem]
      exact .unended hne hmem
termination_by text.length
decreasing_by
  subst_vars
  simp
  omega

theorem madeOf_iff {text : List Char} {found : List (List Char)} :
    MadeOf text found ↔ lines text = found := by
  constructor
  · exact lines_eq_of_madeOf
  · rintro rfl
    exact madeOf_lines text

theorem MadeOf.newline_notMem {text : List Char} {lines : List (List Char)}
    (h : MadeOf text lines) : ∀ line ∈ lines, '\n' ∉ line := by
  induction h with
  | nothing => simp
  | unended _ hsingle => simpa using hsingle
  | lf hsingle _ _ ih => exact List.forall_mem_cons.mpr ⟨hsingle, ih⟩
  | crlf hsingle _ ih => exact List.forall_mem_cons.mpr ⟨hsingle, ih⟩

/-- The text is empty or ends with the end of a line. -/
def Ended (text : List Char) : Prop :=
  text = [] ∨ text.getLast? = some '\n'

theorem Ended.of_line_append {line rest : List Char} (h : Ended (line ++ '\n' :: rest)) :
    Ended rest := by
  rcases List.eq_nil_or_concat rest with rfl | ⟨front, last, rfl⟩
  · exact .inl rfl
  · rw [List.concat_eq_append, ← List.cons_append, ← List.append_assoc] at h
    rcases h with hnil | hlast
    · simp at hnil
    · rw [List.getLast?_concat] at hlast
      exact .inr (by rw [List.concat_eq_append, List.getLast?_concat, hlast])

/-- What follows the end of a line is read on its own. -/
theorem lines_append {before : List Char} (h : Ended before) (rest : List Char) :
    lines (before ++ rest) = lines before ++ lines rest := by
  have hmade := madeOf_lines before
  generalize lines before = found at hmade
  induction hmade with
  | nothing => rfl
  | unended hfilled hsingle =>
    rcases h with hnil | hlast
    · exact absurd hnil hfilled
    · exact absurd (List.mem_of_getLast? hlast) hsingle
  | lf hsingle hplain _ ih =>
    rw [List.append_assoc, List.cons_append, lines_line_append hsingle, dropReturn_of_ne hplain,
      ih h.of_line_append, List.cons_append]
  | @crlf line after found hsingle _ ih =>
    have hended : Ended ((line ++ ['\r']) ++ '\n' :: after) := by
      rw [List.append_assoc]
      exact h
    rw [List.append_assoc, List.cons_append, List.cons_append, lines_crlf_append hsingle,
      ih hended.of_line_append, List.cons_append]

/-! ## Trimmed texts -/

/-- No blank stands at an end of the text. -/
structure Trimmed (text : List Char) : Prop where
  head : ∀ c ∈ text.head?, isBlank c = false
  last : ∀ c ∈ text.getLast?, isBlank c = false

theorem dropWhile_isBlank_of_head {text : List Char} (h : ∀ c ∈ text.head?, isBlank c = false) :
    text.dropWhile isBlank = text := by
  cases text with
  | nil => rfl
  | cons c text => rw [List.dropWhile_cons, h c rfl, if_neg (by simp)]

/-- Blanks at the ends are trimmed, and nothing else. -/
theorem trim_append {before text after : List Char}
    (hbefore : ∀ c ∈ before, isBlank c = true) (h : Trimmed text)
    (hafter : ∀ c ∈ after, isBlank c = true) : trim (before ++ text ++ after) = text := by
  have hend : trimEnd (text ++ after) = text := by
    have hblanks : ∀ c ∈ after.reverse, isBlank c = true := by simpa using hafter
    have hhead : ∀ c ∈ text.reverse.head?, isBlank c = false := by
      rw [List.head?_reverse]
      exact h.last
    rw [trimEnd, List.reverse_append, List.dropWhile_append_of_pos hblanks,
      dropWhile_isBlank_of_head hhead, List.reverse_reverse]
  rw [trim, trimStart, List.append_assoc, List.dropWhile_append_of_pos hbefore]
  cases text with
  | nil =>
    have hnone : after.dropWhile isBlank = [] := List.dropWhile_eq_nil_iff.mpr hafter
    rw [List.nil_append, hnone]
    rfl
  | cons c text =>
    have hhead : ∀ d ∈ (c :: text ++ after).head?, isBlank d = false := h.head
    rw [dropWhile_isBlank_of_head hhead, hend]

theorem isBlank_of_mem_head?_dropWhile {text : List Char} {c : Char}
    (h : c ∈ (text.dropWhile isBlank).head?) : isBlank c = false := by
  have hnot := List.head?_dropWhile_not isBlank text
  rw [Option.mem_def.mp h] at hnot
  exact hnot

/-- A text is blanks, its trimmed form, and blanks. -/
theorem exists_trim (text : List Char) :
    ∃ before after, text = before ++ trim text ++ after ∧
      (∀ c ∈ before, isBlank c = true) ∧ (∀ c ∈ after, isBlank c = true) ∧
      Trimmed (trim text) := by
  have hstart : text = text.takeWhile isBlank ++ trimStart text :=
    List.takeWhile_append_dropWhile.symm
  have hend : trimStart text =
      trim text ++ ((trimStart text).reverse.takeWhile isBlank).reverse := by
    rw [trim, trimEnd, ← List.reverse_append, List.takeWhile_append_dropWhile,
      List.reverse_reverse]
  refine ⟨text.takeWhile isBlank, ((trimStart text).reverse.takeWhile isBlank).reverse,
    ?_, ?_, ?_, ?_, ?_⟩
  · rw [List.append_assoc, ← hend]
    exact hstart
  · exact List.all_eq_true.mp List.all_takeWhile
  · intro c hc
    exact List.all_eq_true.mp List.all_takeWhile c (List.mem_reverse.mp hc)
  · intro c hc
    have hhead : c ∈ (trimStart text).head? := by
      rw [hend, List.head?_append, Option.mem_def.mp hc]
      rfl
    exact isBlank_of_mem_head?_dropWhile hhead
  · intro c hc
    rw [trim, trimEnd, List.getLast?_reverse] at hc
    exact isBlank_of_mem_head?_dropWhile hc

theorem trimmed_trim (text : List Char) : Trimmed (trim text) := by
  obtain ⟨before, after, -, -, -, htrimmed⟩ := exists_trim text
  exact htrimmed

theorem Trimmed.trim_eq {text : List Char} (h : Trimmed text) : trim text = text := by
  have hnone : ∀ c ∈ ([] : List Char), isBlank c = true := by simp
  have htrim := trim_append hnone h hnone
  rw [List.nil_append, List.append_nil] at htrim
  exact htrim

/-- The trimmed form has characters of the text only. -/
theorem mem_of_mem_trim {text : List Char} {c : Char} (h : c ∈ trim text) : c ∈ text := by
  obtain ⟨before, after, htext, -⟩ := exists_trim text
  rw [htext]
  exact List.mem_append_left after (List.mem_append_right before h)

/-- A CR at the end of a line is trimmed with it. -/
theorem trim_dropReturn (line : List Char) : trim (dropReturn line) = trim line := by
  by_cases hreturn : line.getLast? = some '\r'
  · obtain ⟨front, rfl⟩ := List.getLast?_eq_some_iff.mp hreturn
    obtain ⟨before, after, hfront, hbefore, hafter, htrimmed⟩ := exists_trim front
    have hblanks : ∀ c ∈ after ++ ['\r'], isBlank c = true := by
      intro c hc
      rcases List.mem_append.mp hc with hc | hc
      · exact hafter c hc
      · rw [List.mem_singleton.mp hc]
        decide
    have htrim := trim_append hbefore htrimmed hblanks
    rw [← List.append_assoc, ← hfront] at htrim
    rw [dropReturn_concat, htrim]
  · rw [dropReturn_of_ne hreturn]

/-! ## Joined texts -/

section Join

variable {separator : Char}

theorem joinWith_cons (piece : List Char) {pieces : List (List Char)} (h : pieces ≠ []) :
    joinWith separator (piece :: pieces) = piece ++ separator :: joinWith separator pieces := by
  cases pieces with
  | nil => exact absurd rfl h
  | cons next pieces => rfl

theorem joinWith_append {front back : List (List Char)} (hfront : front ≠ []) (hback : back ≠ []) :
    joinWith separator (front ++ back) =
      joinWith separator front ++ separator :: joinWith separator back := by
  induction front with
  | nil => exact absurd rfl hfront
  | cons piece front ih =>
    by_cases hlast : front = []
    · subst hlast
      exact joinWith_cons piece hback
    · rw [List.cons_append, joinWith_cons piece (by simp [hlast]), joinWith_cons piece hlast,
        ih hlast, List.append_assoc, List.cons_append]

/-- Groups can be joined first, and then with each other. -/
theorem joinWith_flatten {groups : List (List (List Char))} (h : [] ∉ groups) :
    joinWith separator groups.flatten = joinWith separator (groups.map (joinWith separator)) := by
  induction groups with
  | nil => rfl
  | cons group groups ih =>
    have hgroup : group ≠ [] := fun hnil => h (hnil ▸ List.mem_cons_self)
    have hrest : [] ∉ groups := fun hmem => h (List.mem_cons_of_mem group hmem)
    cases groups with
    | nil => simp [joinWith]
    | cons next groups =>
      have hflatten : (next :: groups).flatten ≠ [] := by
        have hnext : next ≠ [] := fun hnil => hrest (hnil ▸ List.mem_cons_self)
        simp [hnext]
      rw [List.flatten_cons, joinWith_append hgroup hflatten, ih hrest]
      rfl

end Join

/-- Trimmed texts with one blank between them are a trimmed text. -/
theorem Trimmed.append {first second : List Char} (hfirst : Trimmed first)
    (hsecond : Trimmed second) (hne : first ≠ []) (hne' : second ≠ []) :
    Trimmed (first ++ ' ' :: second) := by
  constructor
  · rw [List.head?_append_of_ne_nil first hne]
    exact hfirst.head
  · rw [List.getLast?_append_of_ne_nil first (List.cons_ne_nil ' ' second),
      List.getLast?_cons_of_ne_nil hne']
    exact hsecond.last

theorem joinWith_trimmed {pieces : List (List Char)} (hne : pieces ≠ [])
    (h : ∀ piece ∈ pieces, Trimmed piece ∧ piece ≠ []) :
    Trimmed (joinWith ' ' pieces) ∧ joinWith ' ' pieces ≠ [] := by
  induction pieces with
  | nil => exact absurd rfl hne
  | cons piece pieces ih =>
    obtain ⟨⟨hpiece, hfilled⟩, hrest⟩ := List.forall_mem_cons.mp h
    by_cases hlast : pieces = []
    · subst hlast
      exact ⟨hpiece, hfilled⟩
    · obtain ⟨htrimmed, hsome⟩ := ih hlast hrest
      rw [joinWith_cons piece hlast]
      exact ⟨hpiece.append htrimmed hfilled hsome, by simp⟩

/-- The joined text has characters of its pieces, and separators. -/
theorem mem_of_mem_joinWith {separator c : Char} {pieces : List (List Char)}
    (h : c ∈ joinWith separator pieces) : c = separator ∨ ∃ piece ∈ pieces, c ∈ piece := by
  induction pieces with
  | nil => cases h
  | cons piece pieces ih =>
    by_cases hlast : pieces = []
    · subst hlast
      exact .inr ⟨piece, by simp, h⟩
    · rw [joinWith_cons piece hlast] at h
      rcases List.mem_append.mp h with hpiece | hrest
      · exact .inr ⟨piece, by simp, hpiece⟩
      · rcases List.mem_cons.mp hrest with hseparator | hrest
        · exact .inl hseparator
        · refine (ih hrest).imp_right ?_
          rintro ⟨other, hother, hc⟩
          exact ⟨other, List.mem_cons_of_mem piece hother, hc⟩

end LintLayer.Text
