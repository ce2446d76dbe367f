import LintLayer.Proofs.Layer.Run
import LintLayer.Proofs.Path.Map
import LintLayer.Proofs.Problem.Registry

/-!
# The problems of the latest pass

What a layer keeps for a file is the outcome of the last request for its
diagnostics that was not held back, whatever else happened before, between
and after.

`get?_problems_react` says what one event does to the problems of a file and
`get?_problems_after` what a run does to them.
-/

namespace LintLayer

open Layer

/-- A report addresses the same findings to all spellings of a path. -/
theorem Report.findingsFor_congr (report : Report) {file asked : Path}
    (h : file.components = asked.components) :
    report.findingsFor file = report.findingsFor asked := by
  simp only [findingsFor, Path.normalize, h]

theorem Path.same_iff {file asked : Path} :
    asked.same file = true ↔ file.components = asked.components := by
  rw [Path.same, beq_iff_eq]
  exact eq_comm

namespace Layer

variable {σ lib : Type} {host : Host σ} {tools : Toolchain σ lib}

/-- What was kept before a pass does not count after it. -/
theorem Verdict.kept_of_pass {verdict : Verdict} (h : verdict ≠ .suppressed) {file : Path}
    {held : Option ProblemSet} : verdict.kept file held = verdict.kept file none := by
  cases verdict with
  | suppressed => exact absurd rfl h
  | definition | noText | failed | linted => rfl

theorem problemsOf_of_get? {layer : Layer lib} {file : Path} {registered : ProblemSet}
    (hget : layer.problems.get? file = some registered) :
    layer.problemsOf file = registered.problems := by
  rw [problemsOf, hget]

/-! ## One event -/

/-- A request changes the problems of its own file, as its verdict says. -/
theorem get?_problems_semantic (asked file : Path) (layer : Layer lib) (outside : σ) :
    (semantic host tools asked layer outside).1.2.problems.get? file =
      if file.components = asked.components then
        (verdict host tools asked layer outside).kept file (layer.problems.get? file)
      else layer.problems.get? file := by
  have hanswered := semantic_answered host tools asked layer outside
  generalize verdict host tools asked layer outside = verdict at hanswered ⊢
  generalize semantic host tools asked layer outside = answer at hanswered ⊢
  cases hanswered with
  | suppressed => simp only [Verdict.kept, ite_self]
  | definition | noText | failed => simp only [cleared, Path.Map.get?_erase, Verdict.kept]
  | linted =>
    simp only [Path.Map.get?_insert, Path.Map.get?_erase, Verdict.kept]
    by_cases h : file.components = asked.components
    · rw [if_pos h, if_pos h, Report.findingsFor_congr _ h]
    · rw [if_neg h, if_neg h, if_neg h]

/-- What one event does to the problems of a file. -/
theorem get?_problems_react (file : Path) (event : Event σ) (state : Layer lib × σ) :
    (react host tools event state).1.problems.get? file =
      (verdictOf? host tools file event state).elim (state.1.problems.get? file)
        (Verdict.kept file (state.1.problems.get? file)) := by
  rcases fst_react_cases host tools state event with ⟨asked, rfl⟩ | ⟨options, rfl⟩ | ⟨hlayer, hnone⟩
  · rw [react_semantic, perform, get?_problems_semantic]
    simp only [verdictOf?]
    by_cases h : file.components = asked.components
    · rw [if_pos h, if_pos (Path.same_iff.mpr h), Option.elim_some]
    · rw [if_neg h, if_neg (fun hsame => h (Path.same_iff.mp hsame)), Option.elim_none]
  · rfl
  · rw [hlayer, hnone, Option.elim_none]

theorem verdictOf?_eq_none_iff {file : Path} {event : Event σ} {state : Layer lib × σ} :
    verdictOf? host tools file event state = none ↔ event.asks file = false := by
  cases event with
  | query query =>
    cases query with
    | semantic asked => simp [verdictOf?, Event.asks]
    | _ => simp [verdictOf?, Event.asks]
  | _ => simp [verdictOf?, Event.asks]

/-- An event that does not ask for a file leaves its problems as they are. -/
theorem get?_problems_react_of_not_asks {file : Path} {event : Event σ}
    (h : event.asks file = false) (state : Layer lib × σ) :
    (react host tools event state).1.problems.get? file = state.1.problems.get? file := by
  rw [get?_problems_react, verdictOf?_eq_none_iff.mpr h, Option.elim_none]

/-! ## A run -/

/-- What a run does to the problems of a file: each request for the file
does its part, in order. -/
theorem get?_problems_after (file : Path) (events : List (Event σ)) (state : Layer lib × σ) :
    (after host tools events state).1.problems.get? file =
      (verdicts host tools file events state).foldl
        (fun held verdict => verdict.kept file held) (state.1.problems.get? file) := by
  induction events generalizing state with
  | nil => rfl
  | cons event events ih =>
    rw [after_cons, ih, get?_problems_react, verdicts, List.foldl_append]
    cases verdictOf? host tools file event state with
    | none => rfl
    | some verdict => rfl

/-- The last verdict of a request that was not held back. -/
def lastPass? (verdicts : List Verdict) : Option Verdict :=
  (verdicts.filter fun verdict => verdict ≠ .suppressed).getLast?

theorem lastPass?_concat (verdicts : List Verdict) (verdict : Verdict) :
    lastPass? (verdicts ++ [verdict]) =
      if verdict = .suppressed then lastPass? verdicts else some verdict := by
  rw [lastPass?, List.filter_append]
  by_cases h : verdict = .suppressed
  · rw [if_pos h, List.filter_cons_of_neg (by simp [h]), List.filter_nil, List.append_nil,
      lastPass?]
  · rw [if_neg h, List.filter_cons_of_pos (by simp [h]), List.filter_nil, List.getLast?_concat]

/-- Of many requests in a row only the last one that was not held back
counts. -/
theorem foldl_kept (file : Path) (held : Option ProblemSet) (verdicts : List Verdict) :
    verdicts.foldl (fun held verdict => verdict.kept file held) held =
      (lastPass? verdicts).elim held (Verdict.kept file none) := by
  induction verdicts using List.reverseRecOn with
  | nil => rfl
  | append_singleton verdicts verdict ih =>
    rw [List.foldl_append, ih, lastPass?_concat]
    cases verdict with
    | suppressed => rfl
    | definition | noText | failed | linted => rfl

/-- After any run of a new layer, the problems of a file are those of the
last request for its diagnostics that was not held back.  There are none if
there was no such request, or if it left the file out, had no text or
failed.  Else they are the findings of the report for the file, placed on
the text of that request, one for each span: at the place of the first one
with the span, with the value of the last.  No other event changes them. -/
theorem problemsOf_after_run (host : Host σ) (tools : Toolchain σ lib) (options : Options)
    (outside : σ) (events : List (Event σ)) (file : Path) :
    ((after host tools events (create host options outside)).1.problemsOf file =
      match lastPass? (verdicts host tools file events (create host options outside)) with
      | some (.linted text result) =>
        Problem.onePerSpan ((result.report.findingsFor file).map
          (Problem.ofFinding (LineTable.ofText text)))
      | _ => []) ∧
    ∀ (event : Event σ) (state : Layer lib × σ), event.asks file = false →
      (react host tools event state).1.problemsOf file = state.1.problemsOf file := by
  constructor
  · rw [problemsOf, get?_problems_after, foldl_kept, fst_create, Path.Map.get?_empty]
    cases lastPass? (verdicts host tools file events (create host options outside)) with
    | none => rfl
    | some verdict =>
      cases verdict with
      | linted text result =>
        simp only [Option.elim_some, Verdict.kept, ProblemSet.ofFindings_eq,
          ProblemSet.problems_ofProblems]
      | suppressed | definition | noText | failed => rfl
  · intro event state hevent
    rw [problemsOf, get?_problems_react_of_not_asks hevent, problemsOf]

end Layer

/-! ## A small host -/

namespace Layer

/-- A desk with one text on it, which is the text of every file, and the
diagnostics that the host has for it. -/
structure Desk where
  text : String
  own : List Diagnostic := []

/-- The host that looks at the desk. -/
def Desk.host : Host Desk where
  semantic _ := do return (← get).own
  syntactic _ := return []
  fixesAt _ _ _ := return []
  combinedFix _ _ := return ⟨[], []⟩
  sourceText _ := do return some (← get).text
  workspaceRoot := return none
  watch _ := return ()
  refresh := return ()
  isFile _ := return false

/-- Two findings about the first letter of a text, if it has one. -/
def Desk.findings (text : String) : List Finding :=
  if text.isEmpty then []
  else
    let finding : Finding :=
      { message := "short", line := some 1, column := some 1, endLine := some 1,
        endColumn := some 2 }
    [finding, { finding with rule := some "id-length", fix := some ⟨[.ofBounds 0 1 "first"]⟩ }]

/-- The analyzer that reports `findings`. -/
def Desk.tools : Toolchain Desk Unit where
  resolve _ _ _ := return some ⟨"/lib"⟩
  globalRoot _ := return none
  load _ := return .ok ()
  lint _ request :=
    return .ok { report := .ofResults [⟨request.file, findings (request.text.getD ""), 0, 0⟩] }
  pathExists _ := return true

/-- The analyzer that reports the given findings, whatever the text is. -/
def Desk.reporting (findings : List Finding) : Toolchain Desk Unit :=
  { Desk.tools with
    lint := fun _ request =>
      return .ok { report := .ofResults [⟨request.file, findings, 0, 0⟩] } }

/-- A finding about one letter of the first line, with a fix. -/
def Desk.quote (letter : UInt32) : Finding :=
  { rule := some "quotemark", message := "quote", line := some 1, column := some (letter + 1),
    endLine := some 1, endColumn := some (letter + 2),
    fix := some ⟨[.ofBounds letter.toNat (letter.toNat + 1) "q"]⟩ }

/-- A file is linted, its text changes, another file is asked for, and the
first one is linted again under another spelling of its path. -/
theorem problemsOf_after_run_desk :
    let events : List (Event Desk) :=
      [.query (.semantic ⟨"/a.ts"⟩), .outside fun _ => ⟨"y", []⟩, .query (.semantic ⟨"/b.ts"⟩),
        .updateOptions {}, .query (.semantic ⟨"//a.ts"⟩)]
    let start : Layer Unit × Desk := create Desk.host {} ⟨"x", []⟩
    (after Desk.host Desk.tools events start).1.problemsOf ⟨"/a.ts"⟩ =
        Problem.onePerSpan ((Desk.findings "y").map (Problem.ofFinding (LineTable.ofText "y"))) ∧
      (Event.query (.semantic ⟨"/b.ts"⟩) : Event Desk).asks ⟨"/a.ts"⟩ = false ∧
      (react Desk.host Desk.tools (.query (.semantic ⟨"/b.ts"⟩)) start).1.problemsOf ⟨"/a.ts"⟩ =
        start.1.problemsOf ⟨"/a.ts"⟩ := by
  intro events start
  have hrun := problemsOf_after_run Desk.host Desk.tools {} ⟨"x", []⟩ events ⟨"/a.ts"⟩
  have hother : (Event.query (.semantic ⟨"/b.ts"⟩) : Event Desk).asks ⟨"/a.ts"⟩ = false := by
    decide
  have hpass : lastPass? (verdicts Desk.host Desk.tools ⟨"/a.ts"⟩ events start) =
      some (.linted "y" { report := .ofResults [⟨⟨"//a.ts"⟩, Desk.findings "y", 0, 0⟩] }) := by
    decide +kernel
  refine ⟨?_, hother, hrun.2 _ start hother⟩
  rw [hrun.1, hpass]
  decide +kernel

end Layer

end LintLayer
