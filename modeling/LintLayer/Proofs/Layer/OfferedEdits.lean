import LintLayer.Proofs.Batch.Members
import LintLayer.Proofs.Layer.LatestPass
import LintLayer.Proofs.LineTable.Offset

/-!
# The edits that a layer offers

Every edit in an action of the layer belongs to a problem that is kept for
the file, and so to a finding of the latest pass, placed on the text of that
pass.

A request that is held back keeps what is there.  So the edits that are
offered after it may belong to a text that is long gone;
`offered_edit_outlives_text` is such a run.  After a request that makes a
pass they do not, and `edits_offered_after_pass` says so for all runs.
-/

namespace LintLayer

/-! ## From edits to problems -/

/-- The edits of a problem that actions are made of. -/
def Problem.offered (problem : Problem) : List Edit :=
  problem.edits ++ problem.disableEdit.toList

/-- The edits of findings, placed on a text. -/
def editsOn (text : String) (findings : List Finding) : List Edit :=
  findings.flatMap fun finding => (Problem.ofFinding (LineTable.ofText text) finding).offered

namespace ProblemSet

variable {registered : ProblemSet}

theorem mem_problems_of_get? {span : Span} {problem : Problem}
    (h : registered.get? span = some problem) : problem ∈ registered.problems := by
  obtain ⟨slot, _, hslot⟩ := Option.bind_eq_some_iff.mp h
  exact List.mem_of_getElem? hslot

/-- The problems of a registry are among those it was made of. -/
theorem mem_of_mem_problems_ofProblems {problems : List Problem} {problem : Problem}
    (h : problem ∈ (ofProblems problems).problems) : problem ∈ problems := by
  rw [problems_ofProblems, Problem.onePerSpan] at h
  obtain ⟨span, _, hfind⟩ := List.mem_filterMap.mp h
  exact List.mem_reverse.mp (List.mem_of_find?_eq_some hfind)

/-- A batch over some of the problems holds edits of these problems. -/
theorem exists_problem_of_mem_select {problems : List Problem} {edit : Edit}
    (hproblems : ∀ problem ∈ problems, problem ∈ registered.problems)
    (h : edit ∈ Batch.select (problems.map Problem.edits)) :
    ∃ problem ∈ registered.problems, edit ∈ problem.offered := by
  obtain ⟨fix, hfix, hedit⟩ := Batch.exists_mem_of_mem_select h
  obtain ⟨problem, hproblem, rfl⟩ := List.mem_map.mp hfix
  exact ⟨problem, hproblems problem hproblem, List.mem_append_left _ hedit⟩

theorem mem_problems_of_mem_fixable {problem : Problem} (h : problem ∈ registered.fixable) :
    problem ∈ registered.problems :=
  (List.mem_filter.mp h).1

theorem mem_problems_of_mem_fixableFor {rule : String} {problem : Problem}
    (h : problem ∈ registered.fixableFor rule) : problem ∈ registered.problems :=
  mem_problems_of_mem_fixable (List.mem_filter.mp h).1

end ProblemSet

namespace Layer

variable {σ lib : Type} {host : Host σ} {tools : Toolchain σ lib}

/-! ## From actions to problems -/

section Actions

variable {file : Path} {registered : ProblemSet} {change : FileEdits} {edit : Edit}

theorem exists_problem_of_mem_fixRule {rule : String}
    (hchange : change ∈ (CodeAction.fixRule file registered rule).changes)
    (hedit : edit ∈ change.edits) : ∃ problem ∈ registered.problems, edit ∈ problem.offered := by
  rcases List.mem_singleton.mp hchange with rfl
  exact ProblemSet.exists_problem_of_mem_select
    (fun _ => ProblemSet.mem_problems_of_mem_fixableFor) hedit

/-- What an action for a problem can be: the fix of the problem, the fix of
its rule, the fix of the file, or the comment that silences the rule. -/
theorem mem_actionsFor_cases {problem : Problem} {action : CodeAction}
    (h : action ∈ actionsFor file registered problem) :
    action = CodeAction.fixOne file problem ∨
      (∃ rule, 2 ≤ (registered.fixableFor rule).length ∧
        action = CodeAction.fixRule file registered rule) ∨
      action = CodeAction.fixAll file registered ∨
      ∃ rule edit, problem.disableEdit = some edit ∧
        action = CodeAction.onFile file ("Disable rule '" ++ rule ++ "'") [edit] := by
  rw [actionsFor] at h
  rcases List.mem_append.mp h with hfix | hrest
  · split at hfix
    · rcases List.mem_cons.mp hfix with hone | hrule
      · exact Or.inl hone
      · split at hrule
        · rename_i htwo
          exact Or.inr (Or.inl ⟨_, htwo, List.mem_singleton.mp hrule⟩)
        · simp at hrule
    · simp at hfix
  · rcases List.mem_cons.mp hrest with hall | hdisable
    · exact Or.inr (Or.inr (Or.inl hall))
    · obtain ⟨rule, _, hdisable⟩ :=
        Option.bind_eq_some_iff.mp (Option.mem_toList.mp hdisable)
      obtain ⟨edit, hedit, haction⟩ := Option.bind_eq_some_iff.mp hdisable
      exact Or.inr (Or.inr (Or.inr ⟨rule, edit, hedit, (Option.some.inj haction).symm⟩))

/-- Every edit of an action for a problem belongs to a problem of the
file. -/
theorem exists_problem_of_mem_actionsFor {problem : Problem} {action : CodeAction}
    (hproblem : problem ∈ registered.problems)
    (haction : action ∈ actionsFor file registered problem)
    (hchange : change ∈ action.changes) (hedit : edit ∈ change.edits) :
    ∃ problem ∈ registered.problems, edit ∈ problem.offered := by
  rcases mem_actionsFor_cases haction with
    rfl | ⟨rule, _, rfl⟩ | rfl | ⟨rule, insertion, hinsertion, rfl⟩
  · rcases List.mem_singleton.mp hchange with rfl
    exact ⟨problem, hproblem, List.mem_append_left _ hedit⟩
  · exact exists_problem_of_mem_fixRule hchange hedit
  · rcases List.mem_singleton.mp hchange with rfl
    exact ProblemSet.exists_problem_of_mem_select
      (fun _ => ProblemSet.mem_problems_of_mem_fixable) hedit
  · rcases List.mem_singleton.mp hchange with rfl
    rcases List.mem_singleton.mp hedit with rfl
    refine ⟨problem, hproblem, List.mem_append_right _ ?_⟩
    rw [hinsertion, Option.toList_some]
    exact List.mem_singleton.mpr rfl

/-- Whether the edits of a list of changes all satisfy a property. -/
def EditsSatisfy (P : Edit → Prop) (changes : List FileEdits) : Prop :=
  ∀ change ∈ changes, ∀ edit ∈ change.edits, P edit

/-- What the layer offers for a file comes from the problems it keeps. -/
theorem editsSatisfy_of_kept {P : Edit → Prop} {layer : Layer lib}
    (hkept : ∀ registered, layer.problems.get? file = some registered →
      ∀ problem ∈ registered.problems, ∀ edit ∈ problem.offered, P edit) :
    (∀ span, ∀ action ∈ layer.actionsAt file span, EditsSatisfy P action.changes) ∧
      ∀ rule, EditsSatisfy P (layer.changesForRule file rule) := by
  constructor
  · intro span action haction change hchange edit hedit
    rw [actionsAt] at haction
    split at haction
    · simp at haction
    · rename_i registered hregistered
      split at haction
      · simp at haction
      · rename_i problem hget
        obtain ⟨source, hsource, hoffered⟩ := exists_problem_of_mem_actionsFor
          (ProblemSet.mem_problems_of_get? hget) haction hchange hedit
        exact hkept registered hregistered source hsource edit hoffered
  · intro rule change hchange edit hedit
    rw [changesForRule] at hchange
    split at hchange
    · simp at hchange
    · rename_i registered hregistered
      obtain ⟨source, hsource, hoffered⟩ :=
        exists_problem_of_mem_fixRule (List.mem_filter.mp hchange).1 hedit
      exact hkept registered hregistered source hsource edit hoffered

end Actions

/-! ## After a pass -/

/-- The text that the host has of a file when its diagnostics are asked
for. -/
def snapshot (host : Host σ) (file : Path) (outside : σ) : Option String :=
  (host.sourceText file (host.semantic file outside).2).1

/-- Whether an edit was computed from what a request saw: it is an edit of a
finding that the report has for the file, placed on the host's text. -/
def ComputedFrom (file : Path) (seen : Option String) (verdict : Verdict) (edit : Edit) : Prop :=
  ∃ text result, verdict = .linted text result ∧ seen = some text ∧
    edit ∈ editsOn text (result.report.findingsFor file)

/-- A pass is made on the text that the host has. -/
theorem snapshot_of_linted {asked : Path} {layer : Layer lib} {outside : σ} {text : String}
    {result : RunResult} (h : verdict host tools asked layer outside = .linted text result) :
    snapshot host asked outside = some text := by
  have hanswered := semantic_answered host tools asked layer outside
  rw [h] at hanswered
  generalize semantic host tools asked layer outside = answer at hanswered
  cases hanswered with
  | linted hown _ _ htext =>
    rw [snapshot, hown, htext]

/-- The problems that a verdict keeps are computed from what the request
saw. -/
theorem computedFrom_of_kept {file : Path} {seen : Option String} {verdict : Verdict}
    (hseen : ∀ text result, verdict = .linted text result → seen = some text)
    {registered : ProblemSet} (hkept : verdict.kept file none = some registered) :
    ∀ problem ∈ registered.problems, ∀ edit ∈ problem.offered,
      ComputedFrom file seen verdict edit := by
  intro problem hproblem edit hedit
  cases verdict with
  | linted text result =>
    rcases Option.some.inj hkept with rfl
    rw [ProblemSet.ofFindings_eq] at hproblem
    obtain ⟨finding, hfinding, rfl⟩ :=
      List.mem_map.mp (ProblemSet.mem_of_mem_problems_ofProblems hproblem)
    refine ⟨text, result, rfl, hseen text result rfl, ?_⟩
    exact List.mem_flatMap.mpr ⟨finding, hfinding, hedit⟩
  | suppressed | definition | noText | failed => simp [Verdict.kept] at hkept

/-- After a request that makes a pass, and any number of requests that are
held back, the problems are those of the pass. -/
theorem get?_problems_after_pass {file asked : Path} {later : List (Event σ)}
    {state : Layer lib × σ} (hasked : asked.same file = true)
    (hpass : verdict host tools asked state.1 state.2 ≠ .suppressed)
    (hlater : ∀ verdict ∈ verdicts host tools file later
      (react host tools (.query (.semantic asked)) state), verdict = .suppressed) :
    (after host tools (.query (.semantic asked) :: later) state).1.problems.get? file =
      (verdict host tools asked state.1 state.2).kept file none := by
  have hnone : lastPass? (verdicts host tools file later
      (react host tools (.query (.semantic asked)) state)) = none := by
    rw [lastPass?, List.getLast?_eq_none_iff, List.filter_eq_nil_iff]
    intro verdict hverdict
    simp [hlater verdict hverdict]
  rw [after_cons, get?_problems_after, foldl_kept, hnone, Option.elim_none, react_semantic,
    perform, get?_problems_semantic, if_pos (Path.same_iff.mp hasked),
    Verdict.kept_of_pass hpass]

theorem combinedFix_of_rule (host : Host σ) (layer : Layer lib) (file : Path) {group rule : String}
    (hrule : CodeAction.ruleOfGroup group = some rule) (outside : σ) :
    combinedFix host file group layer outside =
      (({ changes := layer.changesForRule file rule, commands := [] }, layer), outside) := by
  rw [combinedFix, hrule]
  rfl

/-- In any run of a new layer, take a request for the diagnostics of a file
that is not held back, and any events after it among which no further pass
over the file is made.  Every edit that the layer then adds for the file, at
a span or for a group of its own, was computed from what that request
saw. -/
theorem edits_offered_after_pass (host : Host σ) (tools : Toolchain σ lib) (options : Options)
    (outside : σ) (earlier later : List (Event σ)) (file asked : Path)
    (hasked : asked.same file = true)
    (hpass : verdict host tools asked
      (after host tools earlier (create host options outside)).1
      (after host tools earlier (create host options outside)).2 ≠ .suppressed)
    (hlater : ∀ verdict ∈ verdicts host tools file later
      (after host tools (earlier ++ [.query (.semantic asked)]) (create host options outside)),
      verdict = .suppressed) :
    let before := after host tools earlier (create host options outside)
    let state := after host tools (earlier ++ .query (.semantic asked) :: later)
      (create host options outside)
    let computed := ComputedFrom file (snapshot host asked before.2)
      (verdict host tools asked before.1 before.2)
    (∀ span codes, ∃ added,
      (fixesAt host file span codes state.1 state.2).1.1 =
        (host.fixesAt file span codes state.2).1 ++ added ∧
      ∀ action ∈ added, EditsSatisfy computed action.changes) ∧
    ∀ group rule, CodeAction.ruleOfGroup group = some rule →
      EditsSatisfy computed (combinedFix host file group state.1 state.2).1.1.changes := by
  intro before state computed
  rw [after_append] at hlater
  have hstate : state.1.problems.get? file =
      (verdict host tools asked before.1 before.2).kept file none := by
    rw [show state = after host tools (.query (.semantic asked) :: later) before from
      after_append _ _ _]
    exact get?_problems_after_pass hasked hpass hlater
  obtain ⟨hactions, hchanges⟩ : (∀ span, ∀ action ∈ state.1.actionsAt file span,
      EditsSatisfy computed action.changes) ∧
      ∀ rule, EditsSatisfy computed (state.1.changesForRule file rule) := by
    refine editsSatisfy_of_kept ?_
    intro registered hregistered
    refine computedFrom_of_kept ?_ (hstate.symm.trans hregistered)
    intro text result hlinted
    exact snapshot_of_linted hlinted
  constructor
  · intro span codes
    rw [fixesAt_eq]
    refine ⟨_, rfl, ?_⟩
    intro action haction
    split at haction
    · simp at haction
    · exact hactions span action haction
  · intro group rule hrule
    rw [combinedFix_of_rule host state.1 file hrule]
    exact hchanges rule

/-- The desk after the text `y` was linted, the host began to report, and a
second request was held back. -/
theorem edits_offered_after_pass_desk :
    let file : Path := ⟨"/a.ts"⟩
    let options : Options := { suppressWhileHostReports := true }
    let report : Diagnostic := ⟨file, ⟨0, 0⟩, "open brace", .error, none, none⟩
    let earlier : List (Event Desk) := [.query (.semantic file), .outside fun _ => ⟨"y", []⟩]
    let later : List (Event Desk) := [.outside fun _ => ⟨"", [report]⟩, .query (.semantic file)]
    let before : Layer Unit × Desk :=
      after Desk.host Desk.tools earlier (create Desk.host options ⟨"x", []⟩)
    let state : Layer Unit × Desk := after Desk.host Desk.tools
      (earlier ++ .query (.semantic file) :: later) (create Desk.host options ⟨"x", []⟩)
    let computed := ComputedFrom file (snapshot Desk.host file before.2)
      (verdict Desk.host Desk.tools file before.1 before.2)
    verdict Desk.host Desk.tools file before.1 before.2 ≠ .suppressed ∧
      verdicts Desk.host Desk.tools file later
        (after Desk.host Desk.tools (earlier ++ [.query (.semantic file)])
          (create Desk.host options ⟨"x", []⟩)) = [.suppressed] ∧
      ∃ added, (fixesAt Desk.host file ⟨0, 1⟩ [] state.1 state.2).1.1 = [] ++ added ∧
        ∀ action ∈ added, EditsSatisfy computed action.changes := by
  intro file options report earlier later before state computed
  have hpass : verdict Desk.host Desk.tools file before.1 before.2 ≠ .suppressed := by
    decide +kernel
  have hlater : verdicts Desk.host Desk.tools file later
      (after Desk.host Desk.tools (earlier ++ [.query (.semantic file)])
        (create Desk.host options ⟨"x", []⟩)) = [.suppressed] := by
    decide +kernel
  refine ⟨hpass, hlater, ?_⟩
  have hoffered := edits_offered_after_pass Desk.host Desk.tools options ⟨"x", []⟩ earlier later
    file file (by decide) hpass
    (fun verdict hverdict => List.mem_singleton.mp (hlater ▸ hverdict))
  exact hoffered.1 ⟨0, 1⟩ []

/-! ## After a request that was held back -/

/-- Nothing can be replaced in an empty text. -/
theorem length_of_mem_editsOn_empty {findings : List Finding} {edit : Edit}
    (h : edit ∈ editsOn "" findings) : edit.span.length = 0 := by
  obtain ⟨finding, _, hedit⟩ := List.mem_flatMap.mp h
  rcases List.mem_append.mp hedit with hfix | hdisable
  · cases hfixed : finding.fix with
    | none => simp [Problem.ofFinding, hfixed] at hfix
    | some fix =>
      simp only [Problem.ofFinding, hfixed] at hfix
      obtain ⟨replacement, _, rfl⟩ := List.mem_map.mp hfix
      have hoffset (offset : Nat) : (LineTable.ofText "").offsetOfUnits offset = 0 :=
        LineTable.offsetOfUnits_ofChars [] offset
      simp only [Problem.editOf, hoffset]
      rfl
  · obtain ⟨rule, _, rfl⟩ := Option.map_eq_some_iff.mp (Option.mem_toList.mp hdisable)
    rfl

/-- A text is linted, then it is emptied and the host begins to report.  The
next request is held back, and after it the layer still offers to replace a
letter, which no finding on the empty text can do. -/
theorem offered_edit_outlives_text :
    let file : Path := ⟨"/a.ts"⟩
    let options : Options := { suppressWhileHostReports := true }
    let report : Diagnostic := ⟨file, ⟨0, 0⟩, "open brace", .error, none, none⟩
    let earlier : List (Event Desk) :=
      [.query (.semantic file), .outside fun _ => ⟨"", [report]⟩]
    let before : Layer Unit × Desk :=
      after Desk.host Desk.tools earlier (create Desk.host options ⟨"x", []⟩)
    let state : Layer Unit × Desk := after Desk.host Desk.tools
      (earlier ++ [.query (.semantic file)]) (create Desk.host options ⟨"x", []⟩)
    snapshot Desk.host file before.2 = some "" ∧
      ∃ added, (fixesAt Desk.host file ⟨0, 1⟩ [] state.1 state.2).1.1 =
          (Desk.host.fixesAt file ⟨0, 1⟩ [] state.2).1 ++ added ∧
        ∃ action ∈ added, ¬ EditsSatisfy (fun edit => ∃ findings, edit ∈ editsOn "" findings)
          action.changes := by
  intro file options report earlier before state
  refine ⟨by decide +kernel, state.1.actionsAt file ⟨0, 1⟩, by decide +kernel, ?_⟩
  obtain ⟨action, haction, change, hchange, hedit⟩ :
      ∃ action ∈ state.1.actionsAt file ⟨0, 1⟩, ∃ change ∈ action.changes,
        (⟨⟨0, 1⟩, "first"⟩ : Edit) ∈ change.edits := by
    decide +kernel
  refine ⟨action, haction, ?_⟩
  intro hall
  obtain ⟨findings, hfindings⟩ := hall change hchange _ hedit
  have hempty := length_of_mem_editsOn_empty hfindings
  simp at hempty

end Layer

end LintLayer
