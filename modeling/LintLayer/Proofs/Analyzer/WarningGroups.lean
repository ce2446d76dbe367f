import LintLayer.Analyzer.Output
import LintLayer.Proofs.Text.Lines
import Mathlib.Data.List.Induction

/-!
# Warnings as groups of lines

A warning of the analyzer is a group of lines: one line that starts it and the
indented lines after it.  The lines that are kept are cut into such groups, and a
warning is the trimmed lines of its group with blanks between them.

* `Grouped` says what the groups are, without the walk over the lines.
* `exists_grouped_concat` is one step of the walk, and `exists_grouped` is the whole
  walk.
* `filter_isKept_lines` says that a line that is not kept can be deleted from the
  text.
* `warnings_lossless` is the result.
-/

namespace LintLayer.Analyzer

/-! ## Groups -/

/-- The groups that lines are cut into.  The lines stay in order, each group has a
first line, all further lines of a group are indented, and the first line of a group
is not, except in the first group. -/
structure Grouped (lines : List (List Char)) (groups : List (List (List Char))) : Prop where
  flatten : groups.flatten = lines
  filled : [] ∉ groups
  goesOn : ∀ group ∈ groups, ∀ line ∈ group.tail, isIndented line = true
  starts : ∀ group ∈ groups.tail, ∀ line ∈ group.head?, isIndented line = false

/-- The text of a group. -/
def told (group : List (List Char)) : List Char :=
  Text.joinWith ' ' (group.map Text.trim)

theorem told_concat {group : List (List Char)} (h : group ≠ []) (line : List Char) :
    told (group ++ [line]) = told group ++ ' ' :: Text.trim line := by
  rw [told, List.map_append, Text.joinWith_append (by simpa using h) (by simp)]
  rfl

theorem grouped_nil : Grouped [] [] :=
  ⟨rfl, by simp, by simp, by simp⟩

section Step

variable {lines : List (List Char)} {groups : List (List (List Char))} {line : List Char}

/-- A line that goes on with the last group. -/
theorem Grouped.extend {last : List (List Char)} (h : Grouped lines (groups ++ [last]))
    (hline : isIndented line = true) :
    Grouped (lines ++ [line]) (groups ++ [last ++ [line]]) := by
  have hlast : last ≠ [] := fun hnil => h.filled (by simp [hnil])
  constructor
  · simp [← h.flatten]
  · simpa using fun hmem => h.filled (List.mem_append_left _ hmem)
  · intro group hgroup other hother
    rcases List.mem_append.mp hgroup with hbefore | hsame
    · exact h.goesOn group (List.mem_append_left _ hbefore) other hother
    · rw [List.mem_singleton.mp hsame, List.tail_append_of_ne_nil hlast] at hother
      rcases List.mem_append.mp hother with hearlier | hnew
      · exact h.goesOn last (by simp) other hearlier
      · rw [List.mem_singleton.mp hnew, hline]
  · -- the first line of the group is the one it had
    intro group hgroup first hfirst
    cases groups with
    | nil => simp at hgroup
    | cons opening groups =>
      rcases List.mem_append.mp hgroup with hbefore | hsame
      · exact h.starts group (List.mem_append_left _ hbefore) first hfirst
      · rw [List.mem_singleton.mp hsame, List.head?_append_of_ne_nil last hlast] at hfirst
        exact h.starts last (List.mem_append_right _ (by simp)) first hfirst

/-- A line that starts a group. -/
theorem Grouped.begin (h : Grouped lines groups) (hline : groups = [] ∨ isIndented line = false) :
    Grouped (lines ++ [line]) (groups ++ [[line]]) := by
  constructor
  · simp [← h.flatten]
  · simpa using h.filled
  · intro group hgroup other hother
    rcases List.mem_append.mp hgroup with hbefore | hnew
    · exact h.goesOn group hbefore other hother
    · rw [List.mem_singleton.mp hnew] at hother
      cases hother
  · intro group hgroup first hfirst
    cases groups with
    | nil => simp at hgroup
    | cons opening groups =>
      rcases List.mem_append.mp hgroup with hbefore | hnew
      · exact h.starts group hbefore first hfirst
      · rw [List.mem_singleton.mp hnew] at hfirst
        rw [← Option.some.inj hfirst]
        exact hline.resolve_left (by simp)

/-- One line more: it goes on with the last group if it is indented, and else it
starts a group of its own. -/
theorem exists_grouped_concat (h : Grouped lines groups) (line : List Char) :
    ∃ further, Grouped (lines ++ [line]) further ∧
      addLine (groups.map told).reverse line = (further.map told).reverse := by
  rcases List.eq_nil_or_concat groups with rfl | ⟨front, last, rfl⟩
  · exact ⟨_, h.begin (.inl rfl), rfl⟩
  · rw [List.concat_eq_append] at *
    have hlast : last ≠ [] := fun hnil => h.filled (by simp [hnil])
    cases hline : isIndented line with
    | true =>
      refine ⟨_, h.extend hline, ?_⟩
      simp [addLine, hline, told_concat hlast]
    | false =>
      refine ⟨_, h.begin (.inr hline), ?_⟩
      simp [addLine, hline, told, Text.joinWith]

end Step

/-- The walk over the lines cuts them into groups. -/
theorem exists_grouped (lines : List (List Char)) :
    ∃ groups, Grouped lines groups ∧ lines.foldl addLine [] = (groups.map told).reverse := by
  induction lines using List.reverseRecOn with
  | nil => exact ⟨[], grouped_nil, rfl⟩
  | append_singleton lines line ih =>
    obtain ⟨groups, hgroups, hwalk⟩ := ih
    rw [List.foldl_append, hwalk]
    exact exists_grouped_concat hgroups line

theorem Grouped.mem_lines {lines group : List (List Char)} {groups : List (List (List Char))}
    (h : Grouped lines groups) (hgroup : group ∈ groups) : ∀ line ∈ group, line ∈ lines := by
  intro line hline
  rw [← h.flatten]
  exact List.mem_flatten_of_mem hgroup hline

/-- The groups together tell the lines. -/
theorem Grouped.joinWith_told {lines : List (List Char)} {groups : List (List (List Char))}
    (h : Grouped lines groups) :
    Text.joinWith ' ' (groups.map told) = Text.joinWith ' ' (lines.map Text.trim) := by
  have hfilled : [] ∉ groups.map (List.map Text.trim) := by
    simpa using h.filled
  rw [← h.flatten, List.map_flatten, Text.joinWith_flatten hfilled, List.map_map]
  rfl

/-! ## Lines that are not kept -/

theorem isKept_dropReturn (line : List Char) : isKept (Text.dropReturn line) = isKept line := by
  rw [isKept, isKept, Text.trim_dropReturn]

/-- A line that is not kept can be deleted from the text, together with its end. -/
theorem filter_isKept_lines {before line after : List Char} (hbefore : Text.Ended before)
    (hsingle : '\n' ∉ line) (hafter : after = [] ∨ after.head? = some '\n')
    (hline : isKept line = false) :
    (Text.lines (before ++ line ++ after)).filter isKept =
      (Text.lines (before ++ after.tail)).filter isKept := by
  have hrest : (Text.lines (line ++ after)).filter isKept =
      (Text.lines after.tail).filter isKept := by
    rcases hafter with rfl | hend
    · by_cases hempty : line = []
      · rw [hempty]
        rfl
      · rw [List.append_nil, Text.lines_of_single hempty hsingle, List.filter_singleton, hline]
        rfl
    · obtain ⟨rest, rfl⟩ := List.head?_eq_some_iff.mp hend
      rw [Text.lines_line_append hsingle, List.filter_cons, isKept_dropReturn, hline,
        List.tail_cons, if_neg (by simp)]
  rw [List.append_assoc, Text.lines_append hbefore, Text.lines_append hbefore,
    List.filter_append, List.filter_append, hrest]

/-! ## Warnings -/

theorem warnings_eq (stderr : String) :
    warnings stderr =
      (((Text.lines stderr.toList).filter isKept).foldl addLine []).reverse.map String.ofList :=
  rfl

/-- The text of a group of kept lines. -/
theorem told_trimmed {group : List (List Char)} (hne : group ≠ [])
    (hkept : ∀ line ∈ group, isKept line = true) :
    Text.Trimmed (told group) ∧ told group ≠ [] := by
  refine Text.joinWith_trimmed (by simpa using hne) ?_
  intro piece hpiece
  obtain ⟨line, hline, rfl⟩ := List.mem_map.mp hpiece
  refine ⟨Text.trimmed_trim line, ?_⟩
  have hfilled := hkept line hline
  simp only [isKept, Bool.and_eq_true, Bool.not_eq_true', List.isEmpty_eq_false_iff] at hfilled
  exact hfilled.1

theorem newline_notMem_told {group : List (List Char)} (h : ∀ line ∈ group, '\n' ∉ line) :
    '\n' ∉ told group := by
  intro hmem
  rcases Text.mem_of_mem_joinWith hmem with hblank | ⟨piece, hpiece, hnewline⟩
  · simp at hblank
  · obtain ⟨line, hline, rfl⟩ := List.mem_map.mp hpiece
    exact h line hline (Text.mem_of_mem_trim hnewline)

/-- The warnings are the kept lines, cut into groups.  A text is made of lines in one
way only, and the kept ones are cut before each line that is not indented; each group
is told as one warning.  So the warnings with blanks between them are the trimmed
kept lines with blanks between them, and every warning is a trimmed text of one line
that is not empty.  A line that is not kept can be deleted from the text without any
change to the warnings: it stands after an ended text, and its own end is deleted with
it if it has one. -/
theorem warnings_lossless (stderr : String) :
    ∃ lines groups, (∀ found, Text.MadeOf stderr.toList found ↔ lines = found) ∧
      Grouped (lines.filter isKept) groups ∧
      warnings stderr = groups.map (fun group => String.ofList (told group)) ∧
      Text.joinWith ' ' ((warnings stderr).map String.toList) =
        Text.joinWith ' ' ((lines.filter isKept).map Text.trim) ∧
      (∀ warning ∈ warnings stderr, warning ≠ "" ∧
        Text.trim warning.toList = warning.toList ∧ '\n' ∉ warning.toList) ∧
      ∀ before line after, stderr.toList = before ++ line ++ after →
        Text.Ended before → '\n' ∉ line → (after = [] ∨ after.head? = some '\n') →
        isKept line = false →
        warnings (String.ofList (before ++ after.tail)) = warnings stderr := by
  obtain ⟨groups, hgroups, hwalk⟩ := exists_grouped ((Text.lines stderr.toList).filter isKept)
  have hwarnings : warnings stderr = groups.map fun group => String.ofList (told group) := by
    rw [warnings_eq, hwalk, List.reverse_reverse, List.map_map]
    rfl
  refine ⟨_, groups, fun _ => Text.madeOf_iff, hgroups, hwarnings, ?_, ?_, ?_⟩
  · have htold : (warnings stderr).map String.toList = groups.map told := by
      simp [hwarnings, Function.comp_def]
    rw [htold, hgroups.joinWith_told]
  · intro warning hwarning
    rw [hwarnings] at hwarning
    obtain ⟨group, hgroup, rfl⟩ := List.mem_map.mp hwarning
    have hlines := hgroups.mem_lines hgroup
    have hne : group ≠ [] := fun hnil => hgroups.filled (hnil ▸ hgroup)
    obtain ⟨htrimmed, hfilled⟩ := told_trimmed hne fun line hline =>
      (List.mem_filter.mp (hlines line hline)).2
    refine ⟨?_, ?_, ?_⟩
    · simpa using hfilled
    · rw [String.toList_ofList, htrimmed.trim_eq]
    · rw [String.toList_ofList]
      exact newline_notMem_told fun line hline =>
        (Text.madeOf_lines stderr.toList).newline_notMem line
          (List.mem_filter.mp (hlines line hline)).1
  · intro before line after htext hbefore hsingle hafter hline
    rw [warnings_eq, warnings_eq, String.toList_ofList, htext,
      filter_isKept_lines hbefore hsingle hafter hline]

/-- The hint stands between a warning and the line that goes on with it. -/
theorem warnings_lossless_hint :
    let stderr := "old,\r\n(Use `node --trace-warnings`)\n  but used\n\nmore"
    warnings stderr = ["old, but used", "more"] ∧
      isKept "(Use `node --trace-warnings`)".toList = false ∧
      warnings "old,\r\n  but used\n\nmore" = warnings stderr := by
  intro stderr
  have hhint : isKept "(Use `node --trace-warnings`)".toList = false := by decide +kernel
  obtain ⟨lines, groups, -, -, -, -, -, hdelete⟩ := warnings_lossless stderr
  have hsame := hdelete "old,\r\n".toList _ "\n  but used\n\nmore".toList (by decide +kernel)
    (.inr rfl) (by decide +kernel) (.inr rfl) hhint
  exact ⟨by decide +kernel, hhint, hsame⟩

end LintLayer.Analyzer
