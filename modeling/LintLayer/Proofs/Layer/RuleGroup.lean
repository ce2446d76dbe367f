import LintLayer.Proofs.Action.Group
import LintLayer.Proofs.Layer.OfferedEdits

/-!
# The fixes of a rule

The fix of a rule reaches the editor in two ways: as an action at a span,
where it carries the group of the rule, and as the answer to a request for
that group.  The layer builds it anew each time.  Here the two are compared
in every state that a run can reach.

What makes them agree is `Placed`: every problem that is kept is a finding
placed on some text.  So a problem that can be fixed has edits, and a group
of such problems is never empty (`changesForRule_eq`).
-/

namespace LintLayer

/-- Problems that can be fixed have edits. -/
def ProblemSet.Editable (registered : ProblemSet) : Prop :=
  ∀ problem ∈ registered.problems, problem.fixable = true → problem.edits ≠ []

theorem ProblemSet.mem_fixableFor {registered : ProblemSet} {rule : String} {problem : Problem} :
    problem ∈ registered.fixableFor rule ↔
      problem ∈ registered.problems ∧ problem.fixable = true ∧ problem.rule = some rule := by
  rw [fixableFor, fixable, List.mem_filter, List.mem_filter, beq_iff_eq, and_assoc]

/-- The batch of a rule is empty only where the rule has no problem that can
be fixed. -/
theorem ProblemSet.Editable.select_eq_nil_iff {registered : ProblemSet}
    (h : registered.Editable) {rule : String} :
    Batch.select ((registered.fixableFor rule).map Problem.edits) = [] ↔
      registered.fixableFor rule = [] := by
  rw [Batch.select_eq_nil_iff, List.eq_nil_iff_forall_not_mem, List.forall_mem_map]
  refine forall_congr' fun problem => ?_
  constructor
  · intro hnil hproblem
    obtain ⟨hmem, hfixable, _⟩ := mem_fixableFor.mp hproblem
    exact h problem hmem hfixable (hnil hproblem)
  · intro hnone hproblem
    exact absurd hproblem hnone

namespace Layer

variable {σ lib : Type} {host : Host σ} {tools : Toolchain σ lib}

/-! ## The invariant -/

/-- Every problem that the layer keeps is a finding placed on some text. -/
def Placed (layer : Layer lib) : Prop :=
  ∀ file registered, layer.problems.get? file = some registered →
    ∀ problem ∈ registered.problems, ∃ text finding,
      problem = Problem.ofFinding (LineTable.ofText text) finding

theorem Placed.editable {layer : Layer lib} (h : layer.Placed) {file : Path}
    {registered : ProblemSet} (hget : layer.problems.get? file = some registered) :
    registered.Editable := by
  intro problem hproblem hfixable
  obtain ⟨text, finding, rfl⟩ := h file registered hget problem hproblem
  exact Problem.edits_ne_nil_of_fixable hfixable

theorem placed_create (options : Options) (outside : σ) :
    Placed (create host options outside : Layer lib × σ).1 := by
  intro file registered hget
  rw [fst_create, Path.Map.get?_empty] at hget
  simp at hget

/-- Every event keeps the invariant.  Only a pass brings new problems, and
they are the findings of its report. -/
theorem placed_react (event : Event σ) {state : Layer lib × σ} (h : Placed state.1) :
    Placed (react host tools event state).1 := by
  intro file registered hget problem hproblem
  rw [get?_problems_react] at hget
  cases hverdict : verdictOf? host tools file event state with
  | none =>
    rw [hverdict, Option.elim_none] at hget
    exact h file registered hget problem hproblem
  | some verdict =>
    rw [hverdict, Option.elim_some] at hget
    cases verdict with
    | suppressed => exact h file registered hget problem hproblem
    | linted text result =>
      rcases Option.some.inj hget with rfl
      rw [ProblemSet.ofFindings_eq] at hproblem
      obtain ⟨finding, _, rfl⟩ :=
        List.mem_map.mp (ProblemSet.mem_of_mem_problems_ofProblems hproblem)
      exact ⟨text, finding, rfl⟩
    | definition | noText | failed => simp [Verdict.kept] at hget

theorem placed_after (events : List (Event σ)) {state : Layer lib × σ} (h : Placed state.1) :
    Placed (after host tools events state).1 :=
  after_induction (P := fun state => Placed state.1) (fun event _ => placed_react event) events h

/-! ## Actions and changes of a rule -/

section Rule

variable {layer : Layer lib} {file : Path} {registered : ProblemSet} {rule : String}

/-- The only action of the layer with a group is the fix of a rule that has
two problems to fix. -/
theorem exists_of_mem_actionsAt_group {span : Span} {action : CodeAction}
    (haction : action ∈ layer.actionsAt file span)
    (hgroup : action.group = some (CodeAction.groupOf rule)) :
    ∃ registered, layer.problems.get? file = some registered ∧
      2 ≤ (registered.fixableFor rule).length ∧
      action = CodeAction.fixRule file registered rule := by
  rw [actionsAt] at haction
  split at haction
  · simp at haction
  · rename_i registered hregistered
    split at haction
    · simp at haction
    · rename_i problem _
      refine ⟨registered, hregistered, ?_⟩
      rcases mem_actionsFor_cases haction with
        rfl | ⟨other, htwo, rfl⟩ | rfl | ⟨other, edit, _, rfl⟩
      · cases hgroup
      · have hrule : other = rule := CodeAction.groupOf_inj.mp (Option.some.inj hgroup)
        rw [← hrule]
        exact ⟨htwo, rfl⟩
      · cases hgroup
      · cases hgroup

/-- The changes of a rule are those of its fix, and there are none where the
rule has no problem to fix. -/
theorem changesForRule_eq (hget : layer.problems.get? file = some registered)
    (heditable : registered.Editable) :
    layer.changesForRule file rule =
      if registered.fixableFor rule = [] then []
      else (CodeAction.fixRule file registered rule).changes := by
  have hchanges : (CodeAction.fixRule file registered rule).changes =
      [⟨file, Batch.select ((registered.fixableFor rule).map Problem.edits)⟩] := rfl
  simp only [changesForRule, hget, hchanges]
  by_cases hnone : registered.fixableFor rule = []
  · rw [if_pos hnone, heditable.select_eq_nil_iff.mpr hnone]
    rfl
  · have hedits : Batch.select ((registered.fixableFor rule).map Problem.edits) ≠ [] :=
      fun hnil => hnone (heditable.select_eq_nil_iff.mp hnil)
    rw [if_neg hnone, List.filter_cons_of_pos (by simpa using hedits), List.filter_nil]

theorem changesForRule_eq_nil_iff (hget : layer.problems.get? file = some registered)
    (heditable : registered.Editable) :
    layer.changesForRule file rule = [] ↔
      ∀ problem ∈ registered.problems, problem.fixable = true → problem.rule ≠ some rule := by
  have hchanges : layer.changesForRule file rule = [] ↔ registered.fixableFor rule = [] := by
    rw [changesForRule_eq hget heditable]
    split
    · rename_i hnone
      exact iff_of_true rfl hnone
    · rename_i hsome
      exact iff_of_false (List.cons_ne_nil _ _) hsome
  rw [hchanges, List.eq_nil_iff_forall_not_mem]
  refine forall_congr' fun problem => ?_
  rw [ProblemSet.mem_fixableFor, not_and, not_and]

theorem one_le_editCount_fixRule (heditable : registered.Editable)
    (hsome : registered.fixableFor rule ≠ []) :
    1 ≤ (CodeAction.fixRule file registered rule).editCount := by
  have hedits : Batch.select ((registered.fixableFor rule).map Problem.edits) ≠ [] :=
    fun hnil => hsome (heditable.select_eq_nil_iff.mp hnil)
  have hcount : (CodeAction.fixRule file registered rule).editCount =
      (Batch.select ((registered.fixableFor rule).map Problem.edits)).length := rfl
  rw [hcount]
  exact List.length_pos_iff.mpr hedits

end Rule

/-- After any run of a new layer, let the layer add an action for the group
of a rule at some span of a file.  Then the rule has at least two problems to
fix in the file, the action edits something, and a request for the group
answers with exactly the changes of the action.  And a request for the group
of any rule answers with no changes only where the rule has no problem to fix
in the file.  All problems that can be fixed have edits. -/
theorem combinedFix_eq_offered (host : Host σ) (tools : Toolchain σ lib) (options : Options)
    (outside : σ) (events : List (Event σ)) (file : Path) :
    let state := after host tools events (create host options outside)
    (∀ span codes added action rule,
      (fixesAt host file span codes state.1 state.2).1.1 =
        (host.fixesAt file span codes state.2).1 ++ added →
      action ∈ added → action.group = some (CodeAction.groupOf rule) → rule ≠ "" →
      2 ≤ ((state.1.problemsOf file).filter fun problem =>
        problem.fixable && problem.rule == some rule).length ∧
      1 ≤ action.editCount ∧
      ∀ later, combinedFix host file (CodeAction.groupOf rule) state.1 later =
        (({ changes := action.changes, commands := [] }, state.1), later)) ∧
    (∀ rule, rule ≠ "" → ∀ later,
      ((combinedFix host file (CodeAction.groupOf rule) state.1 later).1.1.changes = [] ↔
        ∀ problem ∈ state.1.problemsOf file, problem.fixable = true →
          problem.rule ≠ some rule)) ∧
    ∀ problem ∈ state.1.problemsOf file, problem.fixable = true → problem.edits ≠ [] := by
  intro state
  have hplaced : Placed state.1 := placed_after events (placed_create options outside)
  have hrequest {rule : String} (hrule : rule ≠ "") (later : σ) :
      combinedFix host file (CodeAction.groupOf rule) state.1 later =
        (({ changes := state.1.changesForRule file rule, commands := [] }, state.1), later) :=
    combinedFix_of_rule host state.1 file
      (CodeAction.ruleOfGroup_eq_some_iff.mpr ⟨rfl, hrule⟩) later
  refine ⟨?_, ?_, ?_⟩
  · intro span codes added action rule hoffered haction hgroup hrule
    rw [fixesAt_eq] at hoffered
    have hadded := List.append_cancel_left hoffered
    have hat : action ∈ state.1.actionsAt file span := by
      rw [← hadded] at haction
      split at haction
      · simp at haction
      · exact haction
    obtain ⟨registered, hget, htwo, rfl⟩ := exists_of_mem_actionsAt_group hat hgroup
    have hsome : registered.fixableFor rule ≠ [] := List.ne_nil_of_length_pos (by omega)
    refine ⟨?_, one_le_editCount_fixRule (hplaced.editable hget) hsome, ?_⟩
    · rw [problemsOf_of_get? hget]
      rw [ProblemSet.fixableFor, ProblemSet.fixable, List.filter_filter] at htwo
      simpa only [Bool.and_comm] using htwo
    · intro later
      rw [hrequest hrule, changesForRule_eq hget (hplaced.editable hget), if_neg hsome]
  · intro rule hrule later
    rw [hrequest hrule]
    cases hget : state.1.problems.get? file with
    | none => simp [changesForRule, problemsOf, hget]
    | some registered =>
      rw [problemsOf_of_get? hget]
      exact changesForRule_eq_nil_iff hget (hplaced.editable hget)
  · intro problem hproblem
    cases hget : state.1.problems.get? file with
    | none => simp [problemsOf, hget] at hproblem
    | some registered =>
      rw [problemsOf_of_get? hget] at hproblem
      exact hplaced.editable hget problem hproblem

/-- Two letters of a text break one rule, and the layer offers to fix them
together. -/
theorem combinedFix_eq_offered_desk :
    let file : Path := ⟨"/a.ts"⟩
    let tools := Desk.reporting [Desk.quote 0, Desk.quote 2]
    let state := after Desk.host tools [.query (.semantic file)] (create Desk.host {} ⟨"x y", []⟩)
    ∃ action ∈ (fixesAt Desk.host file ⟨0, 1⟩ [] state.1 state.2).1.1,
      action.group = some (CodeAction.groupOf "quotemark") ∧
      2 ≤ ((state.1.problemsOf file).filter fun problem =>
        problem.fixable && problem.rule == some "quotemark").length ∧
      1 ≤ action.editCount ∧
      ∀ later, combinedFix Desk.host file (CodeAction.groupOf "quotemark") state.1 later =
        (({ changes := action.changes, commands := [] }, state.1), later) := by
  intro file tools state
  obtain ⟨action, haction, hgroup⟩ :
      ∃ action ∈ (fixesAt Desk.host file ⟨0, 1⟩ [] state.1 state.2).1.1,
        action.group = some (CodeAction.groupOf "quotemark") := by
    decide +kernel
  refine ⟨action, haction, hgroup, ?_⟩
  exact (combinedFix_eq_offered Desk.host tools {} ⟨"x y", []⟩ [.query (.semantic file)] file).1
    ⟨0, 1⟩ [] _ action "quotemark" rfl haction hgroup (by decide)

end Layer

end LintLayer
