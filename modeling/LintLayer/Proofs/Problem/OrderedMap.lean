import LintLayer.Proofs.Problem.Registry
import Mathlib.Data.List.Nodup

/-!
# The registry is a map in the order of its spans

A registry keeps its problems in a list and the slots of their spans beside it.
Whatever problems are set, one after the other, it is a map from spans to
problems that remembers the order in which the spans came:

* `Consistent.nodup_spans` and `slots_ofProblems`: each span has one slot, and each
  slot one span;
* `Consistent.getSteps?_eq` and `Consistent.setSteps?_eq`: no slot leads past the end
  of the list;
* `get?_eq_getLast?` and `map_some_problems`: what is found at a span, and in which
  order the problems stand;
* `spans_set_of_mem`: a span that is set again keeps its place.
-/

namespace LintLayer.ProblemSet

variable {registered : ProblemSet}

/-! ## Slots and problems -/

/-- A slot belongs to one span only, so no two problems have the same span. -/
theorem Consistent.nodup_spans (h : registered.Consistent) :
    (registered.problems.map Problem.span).Nodup := by
  rw [List.Nodup, List.pairwise_iff_getElem]
  intro slot other hslot hother hlt hsame
  have hfirst := (h.lookup_iff _ slot).mpr (by
    rw [← List.getElem?_map, List.getElem?_eq_getElem hslot])
  have hsecond := (h.lookup_iff _ other).mpr (by
    rw [← List.getElem?_map, List.getElem?_eq_getElem hother])
  rw [hsame, hsecond] at hfirst
  have heq := Option.some.inj hfirst
  omega

theorem slots_set_of_mem (h : registered.Consistent) {problem : Problem}
    (hknown : problem.span ∈ registered.problems.map Problem.span) :
    (registered.set problem).slots = registered.slots := by
  unfold set
  cases hlookup : registered.slots.lookup problem.span with
  | none => exact absurd hknown (h.lookup_eq_none_iff.mp hlookup)
  | some slot => rfl

theorem slots_set_of_notMem (h : registered.Consistent) {problem : Problem}
    (hnew : problem.span ∉ registered.problems.map Problem.span) :
    (registered.set problem).slots =
      (problem.span, registered.problems.length) :: registered.slots := by
  unfold set
  rw [h.lookup_eq_none_iff.mpr hnew]

/-- A span that is set again keeps its place. -/
theorem spans_set_of_mem (h : registered.Consistent) {problem : Problem}
    (hknown : problem.span ∈ registered.problems.map Problem.span) :
    (registered.set problem).problems.map Problem.span =
      registered.problems.map Problem.span := by
  rw [problems_set_of_mem h hknown, Problem.map_span_replaceIn]

/-- The slots count the spans through, the latest span first. -/
theorem slots_ofProblems (problems : List Problem) :
    (ofProblems problems).slots =
      ((ofProblems problems).problems.map Problem.span).zipIdx.reverse := by
  induction problems using List.reverseRecOn with
  | nil => rfl
  | append_singleton problems problem ih =>
    have hconsistent := consistent_ofProblems problems
    rw [ofProblems_concat]
    by_cases hknown : problem.span ∈ (ofProblems problems).problems.map Problem.span
    · rw [slots_set_of_mem hconsistent hknown, spans_set_of_mem hconsistent hknown, ih]
    · rw [slots_set_of_notMem hconsistent hknown, problems_set_of_notMem hconsistent hknown, ih,
        List.map_append, List.zipIdx_append, List.reverse_append]
      simp

/-! ## Reading and writing through a slot -/

/-- Reads the problem at a span.  There is no answer when the slot of the span is
past the end of the problems. -/
def getSteps? (registered : ProblemSet) (span : Span) : Option (Option Problem) :=
  match registered.slots.lookup span with
  | none => some none
  | some slot => registered.problems[slot]?.map some

/-- Sets a problem.  There is no answer when the slot of its span is past the end
of the problems. -/
def setSteps? (registered : ProblemSet) (problem : Problem) : Option ProblemSet :=
  match registered.slots.lookup problem.span with
  | none => some (registered.set problem)
  | some slot => registered.problems[slot]?.map fun _ => registered.set problem

theorem Consistent.getSteps?_eq (h : registered.Consistent) (span : Span) :
    registered.getSteps? span = some (registered.get? span) := by
  unfold getSteps? get?
  cases hlookup : registered.slots.lookup span with
  | none => rfl
  | some slot =>
    obtain ⟨problem, hslot, -⟩ := Option.map_eq_some_iff.mp ((h.lookup_iff span slot).mp hlookup)
    show registered.problems[slot]?.map some = some (registered.problems[slot]?)
    rw [hslot, Option.map_some]

theorem Consistent.setSteps?_eq (h : registered.Consistent) (problem : Problem) :
    registered.setSteps? problem = some (registered.set problem) := by
  unfold setSteps?
  cases hlookup : registered.slots.lookup problem.span with
  | none => rfl
  | some slot =>
    obtain ⟨held, hslot, -⟩ :=
      Option.map_eq_some_iff.mp ((h.lookup_iff problem.span slot).mp hlookup)
    show registered.problems[slot]?.map _ = _
    rw [hslot, Option.map_some]

/-! ## The map -/

theorem get?_eq_getLast? (problems : List Problem) (span : Span) :
    (ofProblems problems).get? span =
      (problems.filter fun problem => problem.span == span).getLast? := by
  rw [get?_ofProblems, List.getLast?_eq_head?_reverse, ← List.filter_reverse, List.head?_filter]

theorem get?_of_mem {problems : List Problem} {problem : Problem}
    (hmem : problem ∈ (ofProblems problems).problems) :
    (ofProblems problems).get? problem.span = some problem := by
  obtain ⟨slot, hslot⟩ := List.mem_iff_getElem?.mp hmem
  have hlookup := ((consistent_ofProblems problems).lookup_iff problem.span slot).mpr (by
    rw [hslot, Option.map_some])
  rw [get?, hlookup, Option.bind_some, hslot]

/-- The problems are found at their spans, which stand in the order in which they
were first set. -/
theorem map_some_problems (problems : List Problem) :
    (ofProblems problems).problems.map some =
      (problems.map Problem.span).eraseDups.map (ofProblems problems).get? := by
  rw [← spans_onePerSpan, ← problems_ofProblems, List.map_map]
  apply List.map_congr_left
  intro problem hmem
  exact (get?_of_mem hmem).symm

/-- After any problems were set, the slots and the problems belong together one by
one, so no read and no write leaves the list.  At a span stands the last problem that
was set there.  The problems stand in the order in which their spans were first set,
one for each span.  To set a span again changes nothing at the other spans and
nothing in this order. -/
theorem registry_is_ordered_map (problems : List Problem) :
    let registered := ofProblems problems
    (∀ span slot, registered.slots.lookup span = some slot ↔
        ∃ problem, registered.problems[slot]? = some problem ∧ problem.span = span) ∧
      (registered.slots.map Prod.fst).Nodup ∧ (registered.slots.map Prod.snd).Nodup ∧
      (registered.problems.map Problem.span).Nodup ∧
      registered.slots.length = registered.problems.length ∧
      (∀ span, registered.getSteps? span = some (registered.get? span)) ∧
      (∀ problem, registered.setSteps? problem = some (registered.set problem)) ∧
      (∀ span, registered.get? span =
        (problems.filter fun problem => problem.span == span).getLast?) ∧
      registered.problems.map some =
        (problems.map Problem.span).eraseDups.map registered.get? ∧
      ∀ problem, problem.span ∈ problems.map Problem.span →
        (registered.set problem).get? problem.span = some problem ∧
          (∀ span, span ≠ problem.span →
            (registered.set problem).get? span = registered.get? span) ∧
          (registered.set problem).problems.map Problem.span =
            registered.problems.map Problem.span := by
  intro registered
  have hconsistent : registered.Consistent := consistent_ofProblems problems
  have hspans := hconsistent.nodup_spans
  have hslots : registered.slots = (registered.problems.map Problem.span).zipIdx.reverse :=
    slots_ofProblems problems
  refine ⟨fun span slot => ?_, ?_, ?_, hspans, ?_, hconsistent.getSteps?_eq,
    hconsistent.setSteps?_eq, get?_eq_getLast? problems, map_some_problems problems,
    fun problem hknown => ⟨?_, fun span hspan => ?_, ?_⟩⟩
  · rw [hconsistent.lookup_iff, Option.map_eq_some_iff]
  · rw [hslots, List.map_reverse, List.nodup_reverse, List.zipIdx_map_fst]
    exact hspans
  · rw [hslots, List.map_reverse, List.nodup_reverse, List.zipIdx_map_snd]
    exact List.nodup_range'
  · rw [hslots, List.length_reverse, List.length_zipIdx, List.length_map]
  · rw [get?_set hconsistent, if_pos rfl]
  · rw [get?_set hconsistent, if_neg (Ne.symm hspan)]
  · apply spans_set_of_mem hconsistent
    rw [problems_ofProblems, spans_onePerSpan, List.mem_eraseDups]
    exact hknown

/-- A problem of three bytes that nothing fixes. -/
def problemAt (start : Nat) (rule : String) : Problem :=
  { finding := { rule := some rule, message := "m" }, span := ⟨start, 3⟩, fixable := false
    edits := [], disableEdit := none }

/-- The first of two spans is set again, and its problem stays in front. -/
theorem registry_is_ordered_map_again :
    let problems := [problemAt 8 "quotes", problemAt 0 "no-var"]
    let registered := ofProblems problems
    let changed := registered.set (problemAt 8 "semi")
    (problemAt 8 "semi").span ∈ problems.map Problem.span ∧
      changed.get? ⟨8, 3⟩ = some (problemAt 8 "semi") ∧
      (⟨0, 3⟩ : Span) ≠ (problemAt 8 "semi").span ∧
      changed.get? ⟨0, 3⟩ = registered.get? ⟨0, 3⟩ ∧
      changed.problems.map Problem.span = [⟨8, 3⟩, ⟨0, 3⟩] := by
  intro problems registered changed
  have hknown : (problemAt 8 "semi").span ∈ problems.map Problem.span := by decide
  have hother : (⟨0, 3⟩ : Span) ≠ (problemAt 8 "semi").span := by decide
  obtain ⟨-, -, -, -, -, -, -, -, -, hset⟩ := registry_is_ordered_map problems
  obtain ⟨hread, hkept, hplaces⟩ := hset (problemAt 8 "semi") hknown
  exact ⟨hknown, hread, hother, hkept _ hother, hplaces.trans (by decide)⟩

end LintLayer.ProblemSet
