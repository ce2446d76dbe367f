import LintLayer.Proofs.Layer.OfferedEdits
import Mathlib.Data.List.Nodup

/-!
# What is published and what is kept

A pass gives two things: the diagnostics of the findings, one for each
finding and in their order, and the problems that are kept for the file, one
for each span.  Both come from one report.  A later request for fixes names
only a span, and finds its way back through the problems.

What is shown for a finding is written out here, in `Finding.diagnostic` and
the definitions after it.  `semantic_of_linted` is the answer and the layer
after a pass.
`actionsAt_of_get?` says what the layer then adds at a span: nothing where no
finding was published, and the actions of the last one elsewhere.
-/

namespace LintLayer

/-! ## What is shown for a finding -/

namespace Finding

/-- The finding has a fix, and some part of the fix deletes or inserts
something. -/
def Repairs (finding : Finding) : Prop :=
  ∃ fix ∈ finding.fix, ∃ part ∈ fix.replacements, part.start < part.stop ∨ part.text ≠ ""

instance (finding : Finding) : Decidable finding.Repairs :=
  inferInstanceAs (Decidable (∃ fix ∈ finding.fix, ∃ part ∈ fix.replacements, _))

/-- The diagnostic of a finding on a text. -/
def diagnostic (file : Path) (text : String) (asWarnings : Bool) (finding : Finding) :
    Diagnostic :=
  { file
    span := (LineTable.ofText text).spanOf finding
    message := finding.rule.elim finding.message fun rule => finding.message ++ " (" ++ rule ++ ")"
    category := if asWarnings = false ∧ finding.severity = 2 then .error else .warning
    code := finding.rule
    source := some "eslint" }

/-- The action that applies the fix of a finding on a text.  Only a finding
that repairs something and names a rule has one. -/
def fixAction? (file : Path) (text : String) (finding : Finding) : Option CodeAction :=
  match finding.rule, finding.fix with
  | some _, some fix =>
    if finding.Repairs then
      some
        { name := "eslint"
          description := "Fix: " ++ finding.message
          changes := [⟨file, fix.replacements.map (Problem.editOf (LineTable.ofText text))⟩] }
    else none
  | _, _ => none

/-- The action that applies the fixes of the rule of a finding.  Only a finding
that repairs something has one, and only where another one of its rule does. -/
def ruleAction? (file : Path) (problems : List Problem) (finding : Finding) :
    Option CodeAction :=
  finding.rule.bind fun rule =>
    let same := problems.filter fun problem =>
      problem.finding.Repairs ∧ problem.finding.rule = some rule
    if finding.Repairs ∧ 2 ≤ same.length then
      some
        { name := "eslint"
          description := "Fix all '" ++ rule ++ "'"
          changes := [⟨file, Batch.select (same.map Problem.edits)⟩]
          group := some ("eslint:" ++ rule)
          groupDescription := some ("Fix all '" ++ rule ++ "'") }
    else none

/-- The action that silences the rule of a finding on its line of a text. -/
def disableAction? (file : Path) (text : String) (finding : Finding) : Option CodeAction :=
  finding.rule.map fun rule =>
    { name := "eslint"
      description := "Disable rule '" ++ rule ++ "'"
      changes := [⟨file, [(LineTable.ofText text).disableComment (finding.line.getD 1) rule]⟩] }

end Finding

/-- The action that applies the fixes of a file. -/
def Problem.fileAction (file : Path) (problems : List Problem) : CodeAction :=
  { name := "eslint"
    description := "Fix all auto-fixable eslint failures"
    changes :=
      [⟨file, Batch.select
        ((problems.filter fun problem => problem.finding.Repairs).map Problem.edits)⟩] }

theorem Finding.isFixable_iff_repairs (finding : Finding) :
    finding.isFixable = true ↔ finding.Repairs := by
  have hpart : ∀ part : Replacement,
      part.isEmpty = false ↔ part.start < part.stop ∨ part.text ≠ "" := by
    intro part
    have hle := part.start_le_stop
    by_cases htext : part.text = ""
    · simp [Replacement.isEmpty, htext]
      omega
    · simp [Replacement.isEmpty, htext]
  simp [isFixable, Fix.hasEffect, Repairs, Option.any_eq_true, hpart]

theorem Diagnostic.ofProblem_ofFinding (file : Path) (text : String) (asWarnings : Bool)
    (finding : Finding) :
    ofProblem file (Problem.ofFinding (LineTable.ofText text) finding) asWarnings =
      finding.diagnostic file text asWarnings := by
  have hcategory : categoryOf finding asWarnings =
      if asWarnings = false ∧ finding.severity = 2 then .error else .warning := by
    simp [categoryOf, Finding.isError, Finding.errorSeverity]
  have hmessage : finding.labelledMessage =
      finding.rule.elim finding.message fun rule => finding.message ++ " (" ++ rule ++ ")" := by
    rw [Finding.labelledMessage]
    cases finding.rule <;> rfl
  rw [Finding.diagnostic, ← hcategory, ← hmessage]
  rfl

namespace Layer

variable {σ lib : Type} {host : Host σ} {tools : Toolchain σ lib}

theorem disableRule?_ofFinding (file : Path) (text : String) (finding : Finding) :
    CodeAction.disableRule? file (Problem.ofFinding (LineTable.ofText text) finding) =
      finding.disableAction? file text := by
  cases hrule : finding.rule with
  | none =>
    simp [CodeAction.disableRule?, Finding.disableAction?, Problem.rule, Problem.ofFinding, hrule]
  | some rule =>
    simp [CodeAction.disableRule?, Finding.disableAction?, Problem.rule, Problem.ofFinding, hrule,
      CodeAction.onFile, CodeAction.lintName]

section Placed

variable {registered : ProblemSet} {table : LineTable}
  (hplaced : ∀ problem ∈ registered.problems, ∃ finding, problem = .ofFinding table finding)

include hplaced

/-- The problems that can be fixed are those of findings that repair
something. -/
theorem fixable_of_placed :
    registered.fixable = registered.problems.filter fun problem => problem.finding.Repairs := by
  refine List.filter_congr fun problem hproblem => ?_
  obtain ⟨finding, rfl⟩ := hplaced problem hproblem
  rw [Bool.eq_iff_iff, decide_eq_true_iff]
  exact finding.isFixable_iff_repairs

theorem fixAll_of_placed (file : Path) :
    CodeAction.fixAll file registered = Problem.fileAction file registered.problems := by
  rw [CodeAction.fixAll, fixable_of_placed hplaced]
  rfl

theorem fixableFor_of_placed (rule : String) :
    registered.fixableFor rule = registered.problems.filter fun problem =>
      problem.finding.Repairs ∧ problem.finding.rule = some rule := by
  rw [ProblemSet.fixableFor, fixable_of_placed hplaced, List.filter_filter]
  refine List.filter_congr fun problem _ => ?_
  rw [Bool.eq_iff_iff]
  simp [Problem.rule, and_comm]

/-- The actions for a finding that was placed on a text: its own fix, the fix
of its rule, the fix of the file, and the comment. -/
theorem actionsFor_ofFinding (file : Path) (text : String) (finding : Finding) :
    actionsFor file registered (Problem.ofFinding (LineTable.ofText text) finding) =
      (finding.fixAction? file text).toList ++
        ((finding.ruleAction? file registered.problems).toList ++
          Problem.fileAction file registered.problems ::
            (finding.disableAction? file text).toList) := by
  have hfixable : (Problem.ofFinding (LineTable.ofText text) finding).fixable =
      finding.isFixable := rfl
  have hrule : (Problem.ofFinding (LineTable.ofText text) finding).rule = finding.rule := rfl
  have hrepairs := finding.isFixable_iff_repairs
  rw [actionsFor, disableRule?_ofFinding, hfixable, hrule, fixAll_of_placed hplaced]
  cases hrules : finding.rule with
  | none => simp [Finding.fixAction?, Finding.ruleAction?, hrules]
  | some rule =>
    cases hfixes : finding.isFixable with
    | false =>
      have hnone : ¬ finding.Repairs := by simp [← hrepairs, hfixes]
      cases hfix : finding.fix with
      | none => simp [Finding.fixAction?, Finding.ruleAction?, hrules, hfix, hnone]
      | some fix => simp [Finding.fixAction?, Finding.ruleAction?, hrules, hfix, hnone]
    | true =>
      have hsome : finding.Repairs := hrepairs.mp hfixes
      obtain ⟨fix, hfix, -⟩ := hrepairs.mp hfixes
      have hown : finding.fixAction? file text =
          some (CodeAction.fixOne file (Problem.ofFinding (LineTable.ofText text) finding)) := by
        simp [Finding.fixAction?, hsome, hrules, Option.mem_def.mp hfix, CodeAction.fixOne,
          CodeAction.onFile, CodeAction.lintName, Problem.ofFinding]
      have hshared : (finding.ruleAction? file registered.problems).toList =
          if 2 ≤ (registered.fixableFor rule).length then
            [CodeAction.fixRule file registered rule] else [] := by
        simp only [Finding.ruleAction?, hrules, Option.bind_some, hsome, true_and,
          ← fixableFor_of_placed hplaced]
        split <;> rfl
      rw [hown, hshared, Option.toList_some]
      rfl

end Placed

/-! ## After a pass -/

/-- The configuration file that is found once a run over a file is done. -/
def configFound? (host : Host σ) (tools : Toolchain σ lib) (file : Path) (layer : Layer lib)
    (outside : σ) : Option Path :=
  let (_, asked) := host.semantic file outside
  let (text, read) := host.sourceText file asked
  let (root, located) := host.workspaceRoot read
  let (_, ran) :=
    Runner.run tools file text (.ofOptions layer.options root) layer.runner located
  (layer.options.findConfig host.isFile (configBase file root) ran).1

section Linted

variable {file : Path} {layer : Layer lib} {outside : σ} {text : String} {result : RunResult}

/-- The answer and the layer after a pass. -/
theorem semantic_of_linted (h : verdict host tools file layer outside = .linted text result) :
    (semantic host tools file layer outside).1.1 =
        (host.semantic file outside).1 ++
          ((if (configFound? host tools file layer outside).isSome then
              result.warnings.map (Diagnostic.operational file)
            else []) ++ (Verdict.linted text result).published file layer.options) ∧
      (semantic host tools file layer outside).1.2.options = layer.options ∧
      (semantic host tools file layer outside).1.2.problems.get? file =
        some (ProblemSet.ofProblems ((Verdict.linted text result).problems file)) := by
  have hkept := @get?_problems_semantic σ lib host tools file file layer outside
  rw [if_pos rfl, h, Verdict.kept, ProblemSet.ofFindings_eq] at hkept
  have hanswered := semantic_answered host tools file layer outside
  rw [h] at hanswered
  generalize semantic host tools file layer outside = answer at hanswered hkept ⊢
  cases hanswered with
  | @linted own asked text read root located result runner ran warnings after hown _ _ htext hroot
      hrun hwarnings =>
    have hshown := fst_warningDiagnostics host layer.options file root result.warnings ran
    rw [hwarnings] at hshown
    refine ⟨?_, rfl, hkept⟩
    simp only [configFound?, hown, htext, hroot, hrun] at hshown ⊢
    rw [hshown]

variable {problems : List Problem} {span : Span}

/-- What the layer adds at a span: the actions of the last problem that was
set there. -/
theorem actionsAt_of_get?
    (hget : layer.problems.get? file = some (ProblemSet.ofProblems problems)) :
    layer.actionsAt file span =
      match problems.reverse.find? fun problem => problem.span == span with
      | none => []
      | some problem => actionsFor file (ProblemSet.ofProblems problems) problem := by
  rw [actionsAt, hget]
  cases hfound : problems.reverse.find? fun problem => problem.span == span with
  | none => simp only [ProblemSet.get?_ofProblems, hfound]
  | some problem => simp only [ProblemSet.get?_ofProblems, hfound]

theorem actionsAt_of_notMem (hget : layer.problems.get? file =
      some (ProblemSet.ofProblems problems)) (hspan : span ∉ problems.map Problem.span) :
    layer.actionsAt file span = [] := by
  have hnone : (problems.reverse.find? fun problem => problem.span == span) = none := by
    rw [List.find?_eq_none]
    intro problem hproblem heq
    refine hspan (List.mem_map.mpr ⟨problem, List.mem_reverse.mp hproblem, ?_⟩)
    simpa using heq
  rw [actionsAt_of_get? hget, hnone]

theorem exists_actionsAt_of_mem (hget : layer.problems.get? file =
      some (ProblemSet.ofProblems problems)) (hspan : span ∈ problems.map Problem.span) :
    ∃ problem ∈ problems, problem.span = span ∧
      layer.actionsAt file span = actionsFor file (ProblemSet.ofProblems problems) problem := by
  obtain ⟨problem, hproblem, hspanOf⟩ := List.mem_map.mp hspan
  obtain ⟨found, hfound⟩ :
      ∃ found, (problems.reverse.find? fun problem => problem.span == span) = some found := by
    rw [← Option.isSome_iff_exists, List.find?_isSome]
    exact ⟨problem, List.mem_reverse.mpr hproblem, by simpa using hspanOf⟩
  refine ⟨found, List.mem_reverse.mp (List.mem_of_find?_eq_some hfound), ?_, ?_⟩
  · simpa using List.find?_some hfound
  · rw [actionsAt_of_get? hget, hfound]

end Linted

/-- Take a request for the diagnostics of a file that makes a pass over a
text.  It answers with the host's diagnostics, then one warning for each
warning of the run, empty and at the start of the file, if a configuration file
is found, then one diagnostic for each finding of the report for the file, in
the order of the report.  One problem is kept for each span of these
diagnostics, the one of the last finding there.

In the layer after it, unless the host's own fixes are enough, the fix of the
whole file is offered at the span of every published finding, and nothing is
added at any other span.  If no two findings share a span, the fix and the
comment at the span of a finding are made from the message, the edits and the
rule of this finding. -/
theorem offered_at_published_spans (host : Host σ) (tools : Toolchain σ lib) (file : Path)
    (layer : Layer lib) (outside : σ) (text : String) (result : RunResult)
    (hlinted : verdict host tools file layer outside = .linted text result) :
    let findings := result.report.findingsFor file
    let published := findings.map (Finding.diagnostic file text layer.options.showAsWarnings)
    let spans := published.map Diagnostic.span
    let next := (semantic host tools file layer outside).1.2
    let kept := next.problemsOf file
    (semantic host tools file layer outside).1.1 =
        (host.semantic file outside).1 ++
          ((if (configFound? host tools file layer outside).isSome then
              result.warnings.map fun warning =>
                { file, span := ⟨0, 0⟩, message := warning, category := .warning, code := none,
                  source := some "eslint" }
            else []) ++ published) ∧
      kept = Problem.onePerSpan (findings.map (Problem.ofFinding (LineTable.ofText text))) ∧
      (∀ span, span ∈ spans ↔ span ∈ kept.map Problem.span) ∧
      ∀ span codes later,
        let own := (host.fixesAt file span codes later).1
        let offered := (fixesAt host file span codes next later).1.1
        (span ∉ spans → offered = own) ∧
        ((layer.options.suppressWhileHostReports && !own.isEmpty) = false →
          (span ∈ spans → ∃ before rest,
            offered = own ++ (before ++ Problem.fileAction file kept :: rest)) ∧
          (spans.Nodup → ∀ finding ∈ findings, (LineTable.ofText text).spanOf finding = span →
            offered = own ++ ((finding.fixAction? file text).toList ++
              ((finding.ruleAction? file kept).toList ++ Problem.fileAction file kept ::
                (finding.disableAction? file text).toList)))) := by
  intro findings published spans next kept
  obtain ⟨hanswer, hoptions, hget⟩ :
      _ ∧ next.options = layer.options ∧ next.problems.get? file = some (.ofProblems _) :=
    semantic_of_linted hlinted
  generalize hproblems : (Verdict.linted text result).problems file = problems at hget
  have hmade : problems = findings.map (Problem.ofFinding (LineTable.ofText text)) :=
    hproblems.symm
  have hpublished : (Verdict.linted text result).published file layer.options = published := by
    simp only [Verdict.published, hproblems, hmade, List.map_map, published]
    exact List.map_congr_left fun finding _ => Diagnostic.ofProblem_ofFinding file text _ finding
  have hspans : spans = problems.map Problem.span := by
    simp only [spans, published, hmade, List.map_map]
    rfl
  have hkept : kept = Problem.onePerSpan problems := by
    rw [← ProblemSet.problems_ofProblems]
    exact problemsOf_of_get? hget
  have hheld : (ProblemSet.ofProblems problems).problems = kept :=
    (ProblemSet.problems_ofProblems problems).trans hkept.symm
  have hplaced : ∀ problem ∈ (ProblemSet.ofProblems problems).problems,
      ∃ finding, problem = .ofFinding (LineTable.ofText text) finding := by
    intro problem hproblem
    have hmem := ProblemSet.mem_of_mem_problems_ofProblems hproblem
    rw [hmade] at hmem
    obtain ⟨finding, -, rfl⟩ := List.mem_map.mp hmem
    exact ⟨finding, rfl⟩
  refine ⟨hpublished ▸ hanswer, hmade ▸ hkept, ?_, ?_⟩
  · intro span
    rw [hspans, hkept, ProblemSet.mem_spans_onePerSpan]
  intro span codes later own offered
  rw [hspans]
  refine ⟨?_, fun hopen => ?_⟩
  · intro hspan
    simp only [offered, fixesAt_eq, actionsAt_of_notMem hget hspan, ite_self, List.append_nil, own]
  have hadded : offered = own ++ next.actionsAt file span := by
    rw [← hoptions] at hopen
    exact fixesAt_of_open hopen
  rw [hadded]
  refine ⟨?_, ?_⟩
  · intro hspan
    obtain ⟨problem, hproblem, _, hactions⟩ := exists_actionsAt_of_mem hget hspan
    rw [hactions, actionsFor, fixAll_of_placed hplaced, hheld]
    exact ⟨_, _, rfl⟩
  · rintro hdistinct finding hfinding rfl
    have hmem : Problem.ofFinding (LineTable.ofText text) finding ∈ problems :=
      hmade ▸ List.mem_map_of_mem hfinding
    obtain ⟨problem, hproblem, hspan, hactions⟩ :=
      exists_actionsAt_of_mem hget (List.mem_map_of_mem hmem)
    -- the only problem with the span is that of the finding
    have hsame : problem = Problem.ofFinding (LineTable.ofText text) finding :=
      List.inj_on_of_nodup_map hdistinct hproblem hmem hspan
    rw [← hheld, ← actionsFor_ofFinding hplaced, ← hsame]
    exact congrArg (own ++ ·) hactions

/-- Two letters of a text break one rule, a configuration file is there, and
the directory that is set does not exist. -/
theorem offered_at_published_spans_desk :
    let file : Path := ⟨"/a.ts"⟩
    let host : Host Desk := { Desk.host with isFile := fun _ => return true }
    let tools := { Desk.reporting [Desk.quote 0, Desk.quote 2] with
      pathExists := fun _ => return false }
    let layer : Layer Unit :=
      { options := { nodePath := some ⟨"/missing"⟩ }, runner := .empty, problems := .empty }
    let answer := semantic host tools file layer ⟨"x y", []⟩
    let warning := "The setting 'nodePath' refers to '/missing', but this path does not exist. " ++
      "The setting will be ignored."
    let first : Edit := ⟨⟨0, 1⟩, "q"⟩
    let last : Edit := ⟨⟨2, 1⟩, "q"⟩
    let comment : Edit := ⟨⟨0, 0⟩, "// eslint-disable-next-line quotemark\n"⟩
    let eslint (description : String) (edits : List Edit) : CodeAction :=
      { name := "eslint", description, changes := [⟨file, edits⟩] }
    verdict host tools file layer ⟨"x y", []⟩ = .linted "x y"
        { report := .ofResults [⟨file, [Desk.quote 0, Desk.quote 2], 0, 0⟩]
          warnings := [warning] } ∧
      answer.1.1 =
        [{ file, span := ⟨0, 0⟩, message := warning, category := .warning, code := none,
           source := some "eslint" },
         { file, span := ⟨0, 1⟩, message := "quote (quotemark)", category := .warning,
           code := some "quotemark", source := some "eslint" },
         { file, span := ⟨2, 1⟩, message := "quote (quotemark)", category := .warning,
           code := some "quotemark", source := some "eslint" }] ∧
      (fixesAt host file ⟨2, 1⟩ [] answer.1.2 answer.2).1.1 =
        [eslint "Fix: quote" [last],
         { eslint "Fix all 'quotemark'" [first, last] with
           group := some "eslint:quotemark", groupDescription := some "Fix all 'quotemark'" },
         eslint "Fix all auto-fixable eslint failures" [first, last],
         eslint "Disable rule 'quotemark'" [comment]] ∧
      (fixesAt host file ⟨1, 1⟩ [] answer.1.2 answer.2).1.1 = [] := by
  intro file host tools layer answer warning first last comment eslint
  have hlinted : verdict host tools file layer ⟨"x y", []⟩ = .linted "x y"
      { report := .ofResults [⟨file, [Desk.quote 0, Desk.quote 2], 0, 0⟩]
        warnings := [warning] } := by
    decide +kernel
  obtain ⟨hanswer, _, _, hoffered⟩ :=
    offered_at_published_spans host tools file layer ⟨"x y", []⟩ "x y" _ hlinted
  have hkept : answer.1.2.problemsOf file =
      [.ofFinding (.ofText "x y") (Desk.quote 0), .ofFinding (.ofText "x y") (Desk.quote 2)] := by
    decide +kernel
  have hbatch : Batch.select [[first], [last]] = [first, last] := by
    simp [Batch.select, Batch.kept, Batch.inOrder, List.mergeSort, Batch.firstStart, Batch.scan,
      Batch.startsAfter, Span.stop, first, last]
  refine ⟨hlinted, ?_, ?_, ?_⟩
  · rw [hanswer]
    decide +kernel
  · have hlist := ((hoffered ⟨2, 1⟩ [] answer.2).2 (by decide +kernel)).2 (by decide +kernel)
      (Desk.quote 2) (by decide +kernel) (by decide +kernel)
    rw [hkept] at hlist
    refine hlist.trans ?_
    rw [← hbatch]
    rfl
  · rw [(hoffered ⟨1, 1⟩ [] answer.2).1 (by decide +kernel)]
    decide +kernel

end Layer

end LintLayer
