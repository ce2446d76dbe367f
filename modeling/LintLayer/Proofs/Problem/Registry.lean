import LintLayer.Problem
import Mathlib.Data.List.Basic
import Mathlib.Data.List.Induction

/-!
# Problems by span

`onePerSpan` is the list that a registry of problems stands for, said
without slots: one problem for each span, at the place of the first problem
with that span, with the value of the last one.

The registry keeps its problems in a list and finds them through slots.
`Consistent` ties the two together, `consistent_set` is the step that keeps
it, and `problems_ofProblems` says that the registry of a list of problems
holds exactly `onePerSpan` of them.
-/

namespace LintLayer

/-! ## One problem for each span -/

/-- One problem for each span, in the order in which the spans first occur,
each the last problem with its span. -/
def Problem.onePerSpan (problems : List Problem) : List Problem :=
  (problems.map Problem.span).eraseDups.filterMap fun span =>
    problems.reverse.find? fun problem => problem.span == span

/-- Puts a problem in the place of the one with the same span. -/
def Problem.replaceIn (problem : Problem) (problems : List Problem) : List Problem :=
  problems.map fun other => if other.span = problem.span then problem else other

namespace Problem

theorem find?_reverse_concat (problems : List Problem) (problem : Problem) (span : Span) :
    ((problems ++ [problem]).reverse.find? fun other => other.span == span) =
      if problem.span = span then some problem
      else problems.reverse.find? fun other => other.span == span := by
  rw [List.reverse_append, List.reverse_singleton, List.singleton_append, List.find?_cons]
  by_cases h : problem.span = span
  · simp [h]
  · have hne : (problem.span == span) = false := by simpa using h
    rw [hne, if_neg h]

/-- A span at the end counts only when it is new. -/
theorem eraseDups_concat (spans : List Span) (span : Span) :
    (spans ++ [span]).eraseDups =
      if span ∈ spans then spans.eraseDups else spans.eraseDups ++ [span] := by
  rw [List.eraseDups_append, List.removeAll]
  split
  · rename_i hknown
    rw [List.filter_cons_of_neg (by simpa using hknown), List.filter_nil, List.eraseDups_nil,
      List.append_nil]
  · rename_i hnew
    rw [List.filter_cons_of_pos (by simpa using hnew), List.filter_nil]
    rfl

theorem map_span_replaceIn (problem : Problem) (problems : List Problem) :
    (problem.replaceIn problems).map Problem.span = problems.map Problem.span := by
  rw [replaceIn, List.map_map]
  apply List.map_congr_left
  intro other _
  show (if other.span = problem.span then problem else other).span = other.span
  split
  · rename_i heq
    exact heq.symm
  · rfl

/-- A problem with a new span comes last. -/
theorem onePerSpan_concat_of_notMem {problems : List Problem} {problem : Problem}
    (hnew : problem.span ∉ problems.map Problem.span) :
    onePerSpan (problems ++ [problem]) = onePerSpan problems ++ [problem] := by
  have hspans : ((problems ++ [problem]).map Problem.span).eraseDups =
      (problems.map Problem.span).eraseDups ++ [problem.span] := by
    rw [List.map_append, List.map_singleton, eraseDups_concat, if_neg hnew]
  have hold : ∀ span ∈ (problems.map Problem.span).eraseDups,
      ((problems ++ [problem]).reverse.find? fun other => other.span == span) =
        problems.reverse.find? fun other => other.span == span := by
    intro span hspan
    have hmem : span ∈ problems.map Problem.span := List.mem_eraseDups.mp hspan
    rw [find?_reverse_concat, if_neg]
    intro heq
    exact hnew (heq ▸ hmem)
  rw [onePerSpan, hspans, List.filterMap_append, List.filterMap_congr hold]
  congr 1
  rw [List.filterMap_cons, find?_reverse_concat, if_pos rfl]
  rfl

/-- A problem with a known span takes the place of the one before it. -/
theorem onePerSpan_concat_of_mem {problems : List Problem} {problem : Problem}
    (hknown : problem.span ∈ problems.map Problem.span) :
    onePerSpan (problems ++ [problem]) = problem.replaceIn (onePerSpan problems) := by
  have hspans : ((problems ++ [problem]).map Problem.span).eraseDups =
      (problems.map Problem.span).eraseDups := by
    rw [List.map_append, List.map_singleton, eraseDups_concat, if_pos hknown]
  rw [onePerSpan, hspans, replaceIn, onePerSpan, List.map_filterMap]
  refine List.filterMap_congr ?_
  intro span hspan
  -- the span occurs, so a problem with it is found
  obtain ⟨other, hother, hspanOf⟩ := List.mem_map.mp (List.mem_eraseDups.mp hspan)
  obtain ⟨found, hfound⟩ : ∃ found,
      (problems.reverse.find? fun other => other.span == span) = some found := by
    rw [← Option.isSome_iff_exists, List.find?_isSome]
    exact ⟨other, List.mem_reverse.mpr hother, by simpa using hspanOf⟩
  have hfoundSpan : found.span = span := by simpa using List.find?_some hfound
  rw [find?_reverse_concat, hfound, Option.map_some, hfoundSpan]
  by_cases h : problem.span = span
  · rw [if_pos h, if_pos h.symm]
  · rw [if_neg h, if_neg (Ne.symm h)]

end Problem

/-! ## The registry -/

namespace ProblemSet

/-- The slot of a span is the place of the problem with that span. -/
structure Consistent (registered : ProblemSet) : Prop where
  lookup_iff : ∀ span slot, registered.slots.lookup span = some slot ↔
    registered.problems[slot]?.map Problem.span = some span

theorem consistent_empty : Consistent empty :=
  ⟨fun span slot => by simp [empty]⟩

/-- A span without a slot is the span of no problem. -/
theorem Consistent.lookup_eq_none_iff {registered : ProblemSet} (h : registered.Consistent)
    {span : Span} :
    registered.slots.lookup span = none ↔ span ∉ registered.problems.map Problem.span := by
  constructor
  · intro hnone hmem
    obtain ⟨slot, hslot⟩ := List.mem_iff_getElem?.mp hmem
    rw [List.getElem?_map] at hslot
    rw [(h.lookup_iff span slot).mpr hslot] at hnone
    simp at hnone
  · intro hmem
    cases hlookup : registered.slots.lookup span with
    | none => rfl
    | some slot =>
      have hslot := (h.lookup_iff span slot).mp hlookup
      rw [← List.getElem?_map] at hslot
      exact absurd (List.mem_of_getElem? hslot) hmem

/-- Setting a problem keeps slots and problems together. -/
theorem consistent_set {registered : ProblemSet} (h : registered.Consistent)
    (problem : Problem) : (registered.set problem).Consistent := by
  unfold set
  cases hlookup : registered.slots.lookup problem.span with
  | some slot =>
    have hslot := (h.lookup_iff problem.span slot).mp hlookup
    refine ⟨fun span other => ?_⟩
    have hspans : (registered.problems.set slot problem)[other]?.map Problem.span =
        registered.problems[other]?.map Problem.span := by
      rw [List.getElem?_set]
      split
      · rename_i heq
        subst heq
        rw [hslot]
        split
        · rfl
        · rename_i hlarge
          rw [List.getElem?_eq_none (by omega)] at hslot
          simp at hslot
      · rfl
    rw [h.lookup_iff span other, hspans]
  | none =>
    have hnew := h.lookup_eq_none_iff.mp hlookup
    refine ⟨fun span slot => ?_⟩
    have hplace : (registered.problems ++ [problem])[slot]?.map Problem.span =
        if slot = registered.problems.length then some problem.span
        else registered.problems[slot]?.map Problem.span := by
      split
      · rename_i heq
        rw [heq, List.getElem?_concat_length, Option.map_some]
      · rename_i hne
        rw [List.getElem?_append]
        split
        · rfl
        · rw [List.getElem?_eq_none (by simp; omega), List.getElem?_eq_none (by omega)]
    rw [hplace, List.lookup_cons]
    by_cases hspan : span = problem.span
    · rw [hspan, beq_self_eq_true]
      by_cases hend : slot = registered.problems.length
      · simp [hend]
      · have hmiss : registered.problems[slot]?.map Problem.span ≠ some problem.span := by
          intro hslot
          rw [← List.getElem?_map] at hslot
          exact hnew (List.mem_of_getElem? hslot)
        rw [if_neg hend]
        exact ⟨fun heq => absurd (Option.some.inj heq).symm hend, fun hslot => absurd hslot hmiss⟩
    · have hne : (span == problem.span) = false := by simpa using hspan
      rw [hne, h.lookup_iff span slot]
      by_cases hend : slot = registered.problems.length
      · rw [if_pos hend, hend, List.getElem?_eq_none (Nat.le_refl _)]
        simp [Ne.symm hspan]
      · rw [if_neg hend]

/-- A problem with a known span replaces the problem in its slot. -/
theorem problems_set_of_mem {registered : ProblemSet} (h : registered.Consistent)
    {problem : Problem} (hknown : problem.span ∈ registered.problems.map Problem.span) :
    (registered.set problem).problems = problem.replaceIn registered.problems := by
  unfold set
  cases hlookup : registered.slots.lookup problem.span with
  | none => exact absurd hknown (h.lookup_eq_none_iff.mp hlookup)
  | some slot =>
    have hslot := (h.lookup_iff problem.span slot).mp hlookup
    apply List.ext_getElem?
    intro other
    rw [Problem.replaceIn, List.getElem?_map, List.getElem?_set]
    cases hother : registered.problems[other]? with
    | none =>
      have hlarge := List.getElem?_eq_none_iff.mp hother
      rw [if_neg]
      · rfl
      · rintro rfl
        rw [hother] at hslot
        simp at hslot
    | some found =>
      have hlt := (List.getElem?_eq_some_iff.mp hother).1
      simp only [Option.map_some]
      by_cases hsame : found.span = problem.span
      · -- the slot of the span is this place
        have hplace : registered.slots.lookup problem.span = some other :=
          (h.lookup_iff problem.span other).mpr (by rw [hother]; simp [hsame])
        have heq : slot = other := by
          rw [hlookup] at hplace
          exact Option.some.inj hplace
        subst heq
        rw [if_pos rfl, if_pos hlt, if_pos hsame]
      · have hne : slot ≠ other := by
          rintro rfl
          rw [hother] at hslot
          exact hsame (by simpa using hslot)
        rw [if_neg hne, if_neg hsame]

/-- A problem with a new span comes last. -/
theorem problems_set_of_notMem {registered : ProblemSet} (h : registered.Consistent)
    {problem : Problem} (hnew : problem.span ∉ registered.problems.map Problem.span) :
    (registered.set problem).problems = registered.problems ++ [problem] := by
  unfold set
  rw [h.lookup_eq_none_iff.mpr hnew]

/-- Reading after a write: the problem that was set is found at its span, and
every other span is as before. -/
theorem get?_set {registered : ProblemSet} (h : registered.Consistent) (problem : Problem)
    (span : Span) :
    (registered.set problem).get? span =
      if problem.span = span then some problem else registered.get? span := by
  unfold set
  cases hlookup : registered.slots.lookup problem.span with
  | some slot =>
    have hslot := (h.lookup_iff problem.span slot).mp hlookup
    obtain ⟨held, hheld, _⟩ := Option.map_eq_some_iff.mp hslot
    by_cases hspan : problem.span = span
    · rw [if_pos hspan, get?, ← hspan, hlookup, Option.bind_some, List.getElem?_set,
        if_pos rfl, if_pos (List.getElem?_eq_some_iff.mp hheld).1]
    · rw [if_neg hspan, get?, get?]
      cases hother : registered.slots.lookup span with
      | none => rfl
      | some other =>
        -- a slot belongs to one span only
        have hne : slot ≠ other := by
          rintro rfl
          have hspanOf := (h.lookup_iff span slot).mp hother
          rw [hslot] at hspanOf
          exact hspan (Option.some.inj hspanOf)
        rw [Option.bind_some, Option.bind_some, List.getElem?_set_ne hne]
  | none =>
    simp only [get?, List.lookup_cons]
    by_cases hspan : problem.span = span
    · rw [if_pos hspan, hspan, beq_self_eq_true]
      exact List.getElem?_concat_length
    · have hne : (span == problem.span) = false := by simpa using Ne.symm hspan
      rw [if_neg hspan, hne]
      cases hother : registered.slots.lookup span with
      | none => rfl
      | some other =>
        obtain ⟨held, hheld, _⟩ := Option.map_eq_some_iff.mp ((h.lookup_iff span other).mp hother)
        exact List.getElem?_append_left (List.getElem?_eq_some_iff.mp hheld).1

/-- The registry of a list of problems. -/
def ofProblems (problems : List Problem) : ProblemSet :=
  problems.foldl set empty

theorem ofFindings_eq (table : LineTable) (findings : List Finding) :
    ofFindings table findings = ofProblems (findings.map (Problem.ofFinding table)) := by
  rw [ofFindings, ofProblems, List.foldl_map]

theorem ofProblems_concat (problems : List Problem) (problem : Problem) :
    ofProblems (problems ++ [problem]) = (ofProblems problems).set problem :=
  List.foldl_append

theorem consistent_ofProblems (problems : List Problem) : (ofProblems problems).Consistent := by
  induction problems using List.reverseRecOn with
  | nil => exact consistent_empty
  | append_singleton problems problem ih =>
    rw [ofProblems_concat]
    exact consistent_set ih problem

/-- At a span stands the last problem that was set there. -/
theorem get?_ofProblems (problems : List Problem) (span : Span) :
    (ofProblems problems).get? span =
      problems.reverse.find? fun problem => problem.span == span := by
  induction problems using List.reverseRecOn with
  | nil => rfl
  | append_singleton problems problem ih =>
    rw [ofProblems_concat, get?_set (consistent_ofProblems problems), ih,
      Problem.find?_reverse_concat]

theorem spans_onePerSpan (problems : List Problem) :
    (Problem.onePerSpan problems).map Problem.span = (problems.map Problem.span).eraseDups := by
  induction problems using List.reverseRecOn with
  | nil => rfl
  | append_singleton problems problem ih =>
    rw [List.map_append, List.map_singleton, Problem.eraseDups_concat]
    split
    · rename_i hknown
      rw [Problem.onePerSpan_concat_of_mem hknown, Problem.map_span_replaceIn, ih]
    · rename_i hnew
      rw [Problem.onePerSpan_concat_of_notMem hnew, List.map_append, ih, List.map_singleton]

theorem mem_spans_onePerSpan {problems : List Problem} {span : Span} :
    span ∈ (Problem.onePerSpan problems).map Problem.span ↔ span ∈ problems.map Problem.span := by
  rw [spans_onePerSpan, List.mem_eraseDups]

/-- The registry of a list of problems holds one problem for each span. -/
theorem problems_ofProblems (problems : List Problem) :
    (ofProblems problems).problems = Problem.onePerSpan problems := by
  induction problems using List.reverseRecOn with
  | nil => rfl
  | append_singleton problems problem ih =>
    have hconsistent := consistent_ofProblems problems
    rw [ofProblems_concat]
    by_cases hknown : problem.span ∈ problems.map Problem.span
    · have hheld : problem.span ∈ (ofProblems problems).problems.map Problem.span := by
        rw [ih]
        exact mem_spans_onePerSpan.mpr hknown
      rw [problems_set_of_mem hconsistent hheld, ih, Problem.onePerSpan_concat_of_mem hknown]
    · have hheld : problem.span ∉ (ofProblems problems).problems.map Problem.span := by
        rw [ih]
        exact fun h => hknown (mem_spans_onePerSpan.mp h)
      rw [problems_set_of_notMem hconsistent hheld, ih,
        Problem.onePerSpan_concat_of_notMem hknown]

end ProblemSet

end LintLayer
