import LintLayer.Layer.Service

/-!
# Runs of a layer

A run is a list of events: queries, new options, a changed configuration
file, and changes of the outside that the layer is not told of.  `after` is
the layer and the outside at the end of a run.

A request for the diagnostics of a file can go five ways, and `Verdict` names
them.  `Answered` says for each of them what the host, the analyzer and the
layer did; `semantic_answered` proves that every request is answered so.
Later proofs take a request apart by its cases and never unfold the request
itself.
-/

namespace LintLayer.Layer

variable {σ lib : Type} (host : Host σ) (tools : Toolchain σ lib)

/-! ## Verdicts -/

/-- How a request for the diagnostics of a file went: it was held back
because the host reports something itself, the file is a declaration file
that is left out, the host has no text of it, the run failed, or the
analyzer gave a result for a text. -/
inductive Verdict where
  | suppressed
  | definition
  | noText
  | failed (error : LintError)
  | linted (text : String) (result : RunResult)
  deriving DecidableEq, Repr

/-- The verdict of a run over a text. -/
def Verdict.ofRun (text : String) : Except LintError RunResult → Verdict
  | .error error => .failed error
  | .ok result => .linted text result

/-- How a request for the diagnostics of a file goes. -/
def verdict (file : Path) (layer : Layer lib) (outside : σ) : Verdict :=
  let (own, outside) := host.semantic file outside
  if layer.options.suppressWhileHostReports && !own.isEmpty then .suppressed
  else if layer.options.ignoreDefinitionFiles && file.isDefinition then .definition
  else match host.sourceText file outside with
    | (none, _) => .noText
    | (some text, outside) =>
      let (root, outside) := host.workspaceRoot outside
      let config := RunConfiguration.ofOptions layer.options root
      .ofRun text (Runner.run tools file (some text) config layer.runner outside).1.1

namespace Verdict

/-- The findings that the request met, placed on the text that it saw. -/
def problems (file : Path) : Verdict → List Problem
  | .linted text result =>
    (result.report.findingsFor file).map (Problem.ofFinding (LineTable.ofText text))
  | _ => []

/-- The problems that are kept for the file after the request, where `held`
were kept before it. -/
def kept (file : Path) (held : Option ProblemSet) : Verdict → Option ProblemSet
  | .suppressed => held
  | .linted text result =>
    some (ProblemSet.ofFindings (LineTable.ofText text) (result.report.findingsFor file))
  | _ => none

/-- The diagnostics of the findings that the request met. -/
def published (file : Path) (options : Options) (verdict : Verdict) : List Diagnostic :=
  (verdict.problems file).map fun problem =>
    Diagnostic.ofProblem file problem options.showAsWarnings

end Verdict

/-! ## One request -/

/-- What is kept for all files when a request for `file` has cleared the
problems of the file. -/
def cleared (layer : Layer lib) (file : Path) : Layer lib :=
  { layer with problems := layer.problems.erase file }

/-- A request for the diagnostics of `file` in a layer and an outside, its
verdict, and the answer with the layer and the outside after it. -/
inductive Answered (file : Path) (layer : Layer lib) (outside : σ) :
    Verdict → (List Diagnostic × Layer lib) × σ → Prop where
  | suppressed {own after}
      (hown : host.semantic file outside = (own, after))
      (hsuppress : (layer.options.suppressWhileHostReports && !own.isEmpty) = true) :
      Answered file layer outside .suppressed ((own, layer), after)
  | definition {own after}
      (hown : host.semantic file outside = (own, after))
      (hopen : (layer.options.suppressWhileHostReports && !own.isEmpty) = false)
      (hleft : (layer.options.ignoreDefinitionFiles && file.isDefinition) = true) :
      Answered file layer outside .definition ((own, layer.cleared file), after)
  | noText {own asked after}
      (hown : host.semantic file outside = (own, asked))
      (hopen : (layer.options.suppressWhileHostReports && !own.isEmpty) = false)
      (hwanted : (layer.options.ignoreDefinitionFiles && file.isDefinition) = false)
      (htext : host.sourceText file asked = (none, after)) :
      Answered file layer outside .noText ((own, layer.cleared file), after)
  | failed {own asked text read root located error runner after}
      (hown : host.semantic file outside = (own, asked))
      (hopen : (layer.options.suppressWhileHostReports && !own.isEmpty) = false)
      (hwanted : (layer.options.ignoreDefinitionFiles && file.isDefinition) = false)
      (htext : host.sourceText file asked = (some text, read))
      (hroot : host.workspaceRoot read = (root, located))
      (hrun : Runner.run tools file (some text) (.ofOptions layer.options root) layer.runner
        located = ((.error error, runner), after)) :
      Answered file layer outside (.failed error)
        ((own, { layer.cleared file with runner }), after)
  | linted {own asked text read root located result runner ran warnings after}
      (hown : host.semantic file outside = (own, asked))
      (hopen : (layer.options.suppressWhileHostReports && !own.isEmpty) = false)
      (hwanted : (layer.options.ignoreDefinitionFiles && file.isDefinition) = false)
      (htext : host.sourceText file asked = (some text, read))
      (hroot : host.workspaceRoot read = (root, located))
      (hrun : Runner.run tools file (some text) (.ofOptions layer.options root) layer.runner
        located = ((.ok result, runner), ran))
      (hwarnings : warningDiagnostics host layer.options file root result.warnings ran =
        (warnings, after)) :
      Answered file layer outside (.linted text result)
        ((own ++ (warnings ++ (Verdict.linted text result).published file layer.options),
          { options := layer.options
            runner
            problems := (layer.problems.erase file).insert file
              (ProblemSet.ofFindings (LineTable.ofText text) (result.report.findingsFor file)) }),
          after)

/-! ## The steps of a request -/

section State

variable {ρ α : Type} {m : Type → Type} [Monad m]

theorem pure_apply (answer : α) (state : ρ) :
    (StateT.pure answer : StateT ρ m α) state = pure (answer, state) := rfl

theorem modify_apply (change : ρ → ρ) (state : ρ) :
    (modify change : StateT ρ m PUnit) state = pure (PUnit.unit, change state) := rfl

end State

variable {host tools}

section Steps

variable {file : Path} {layer : Layer lib} {asked after : σ}

theorem pass_of_noText (htext : host.sourceText file asked = (none, after)) :
    pass host tools file layer asked = ((.error (.sourceUnavailable file), layer), after) := by
  simp only [pass, bind, StateT.bind, liftM, monadLift, MonadLift.monadLift, StateT.lift, htext,
    pure, pure_apply]

variable {text : String} {read located : σ} {root : Option Path} {runner : Runner lib}

theorem pass_of_failed {error : LintError}
    (htext : host.sourceText file asked = (some text, read))
    (hroot : host.workspaceRoot read = (root, located))
    (hrun : Runner.run tools file (some text) (.ofOptions layer.options root) layer.runner
      located = ((.error error, runner), after)) :
    pass host tools file layer asked = ((.error (.lint error), { layer with runner }), after) := by
  simp only [pass, runAnalyzer, bind, StateT.bind, StateT.run, liftM, monadLift,
    MonadLift.monadLift, StateT.lift, htext, hroot, hrun, pure, pure_apply]

theorem pass_of_linted {result : RunResult} {ran : σ} {warnings : List Diagnostic}
    (htext : host.sourceText file asked = (some text, read))
    (hroot : host.workspaceRoot read = (root, located))
    (hrun : Runner.run tools file (some text) (.ofOptions layer.options root) layer.runner
      located = ((.ok result, runner), ran))
    (hwarnings : warningDiagnostics host layer.options file root result.warnings ran =
      (warnings, after)) :
    pass host tools file layer asked =
      ((.ok (warnings ++ (Verdict.linted text result).published file layer.options),
        { options := layer.options
          runner
          problems := layer.problems.insert file
            (ProblemSet.ofFindings (LineTable.ofText text) (result.report.findingsFor file)) }),
        after) := by
  simp only [pass, runAnalyzer, bind, StateT.bind, StateT.run, liftM, monadLift,
    MonadLift.monadLift, StateT.lift, htext, hroot, hrun, hwarnings, pure, pure_apply, get,
    getThe, MonadStateOf.get, StateT.get, modify_apply, Verdict.published, Verdict.problems,
    List.map_map]
  rfl

variable {own : List Diagnostic} {outside : σ}

theorem semantic_of_suppressed (hown : host.semantic file outside = (own, after))
    (hsuppress : (layer.options.suppressWhileHostReports && !own.isEmpty) = true) :
    semantic host tools file layer outside = ((own, layer), after) := by
  simp only [semantic, bind, StateT.bind, liftM, monadLift, MonadLift.monadLift, StateT.lift, hown,
    pure, pure_apply, get, getThe, MonadStateOf.get, StateT.get, hsuppress, if_true]

theorem semantic_of_definition (hown : host.semantic file outside = (own, after))
    (hopen : (layer.options.suppressWhileHostReports && !own.isEmpty) = false)
    (hleft : (layer.options.ignoreDefinitionFiles && file.isDefinition) = true) :
    semantic host tools file layer outside = ((own, layer.cleared file), after) := by
  simp only [semantic, bind, StateT.bind, liftM, monadLift, MonadLift.monadLift, StateT.lift, hown,
    pure, pure_apply, get, getThe, MonadStateOf.get, StateT.get, modify_apply,
    hopen, hleft, Bool.false_eq_true, if_false, if_true]
  rfl

/-- A request that is neither held back nor left out makes a pass. -/
theorem semantic_of_pass {outcome : Except PassError (List Diagnostic)} {layer' : Layer lib}
    (hown : host.semantic file outside = (own, asked))
    (hopen : (layer.options.suppressWhileHostReports && !own.isEmpty) = false)
    (hwanted : (layer.options.ignoreDefinitionFiles && file.isDefinition) = false)
    (hpass : pass host tools file (layer.cleared file) asked = ((outcome, layer'), after)) :
    semantic host tools file layer outside =
      ((own ++ outcome.toOption.getD [], layer'), after) := by
  unfold cleared at hpass
  simp only [semantic, bind, StateT.bind, liftM, monadLift, MonadLift.monadLift, StateT.lift, hown,
    pure, pure_apply, get, getThe, MonadStateOf.get, StateT.get, modify_apply,
    hopen, hwanted, Bool.false_eq_true, if_false, hpass]
  cases outcome with
  | error error => simp [Except.toOption, pure_apply, pure]
  | ok added => rfl

end Steps

/-- Every request is answered as its verdict says. -/
theorem semantic_answered (host : Host σ) (tools : Toolchain σ lib) (file : Path)
    (layer : Layer lib) (outside : σ) :
    Answered host tools file layer outside (verdict host tools file layer outside)
      (semantic host tools file layer outside) := by
  rcases hown : host.semantic file outside with ⟨own, asked⟩
  rcases hopen : layer.options.suppressWhileHostReports && !own.isEmpty with _ | _
  case true =>
    have hverdict : verdict host tools file layer outside = .suppressed := by
      simp only [verdict, hown, hopen, if_true]
    rw [hverdict, semantic_of_suppressed hown hopen]
    exact .suppressed hown hopen
  rcases hwanted : layer.options.ignoreDefinitionFiles && file.isDefinition with _ | _
  case true =>
    have hverdict : verdict host tools file layer outside = .definition := by
      simp only [verdict, hown, hopen, hwanted, Bool.false_eq_true, if_false, if_true]
    rw [hverdict, semantic_of_definition hown hopen hwanted]
    exact .definition hown hopen hwanted
  rcases htext : host.sourceText file asked with ⟨_ | text, read⟩
  case none =>
    have hverdict : verdict host tools file layer outside = .noText := by
      simp only [verdict, hown, hopen, hwanted, htext, Bool.false_eq_true, if_false]
    have hpass : pass host tools file (layer.cleared file) asked = _ := pass_of_noText htext
    have hsemantic := semantic_of_pass hown hopen hwanted hpass
    rw [Except.toOption, Option.getD_none, List.append_nil] at hsemantic
    rw [hverdict, hsemantic]
    exact .noText hown hopen hwanted htext
  rcases hroot : host.workspaceRoot read with ⟨root, located⟩
  rcases hrun : Runner.run tools file (some text) (.ofOptions layer.options root) layer.runner
    located with ⟨⟨error | result, runner⟩, ran⟩
  · have hverdict : verdict host tools file layer outside = .failed error := by
      simp only [verdict, hown, hopen, hwanted, htext, hroot, hrun, Verdict.ofRun,
        Bool.false_eq_true, if_false]
    have hpass : pass host tools file (layer.cleared file) asked = _ :=
      pass_of_failed htext hroot hrun
    have hsemantic := semantic_of_pass hown hopen hwanted hpass
    rw [Except.toOption, Option.getD_none, List.append_nil] at hsemantic
    rw [hverdict, hsemantic]
    exact .failed hown hopen hwanted htext hroot hrun
  · rcases hwarnings : warningDiagnostics host layer.options file root result.warnings ran with
      ⟨warnings, after⟩
    have hverdict : verdict host tools file layer outside = .linted text result := by
      simp only [verdict, hown, hopen, hwanted, htext, hroot, hrun, Verdict.ofRun,
        Bool.false_eq_true, if_false]
    have hpass : pass host tools file (layer.cleared file) asked = _ :=
      pass_of_linted htext hroot hrun hwarnings
    have hsemantic := semantic_of_pass hown hopen hwanted hpass
    rw [hverdict, hsemantic]
    exact .linted hown hopen hwanted htext hroot hrun hwarnings

/-- The warnings of a run are shown one by one where a configuration file is
found, and not at all elsewhere. -/
theorem fst_warningDiagnostics (host : Host σ) (options : Options) (file : Path)
    (root : Option Path) (messages : List String) (outside : σ) :
    (warningDiagnostics host options file root messages outside).1 =
      if (options.findConfig host.isFile (configBase file root) outside).1.isSome then
        messages.map (Diagnostic.operational file)
      else [] := by
  unfold warningDiagnostics
  split
  · -- nothing is looked for, and there is nothing to show
    rename_i hempty
    rw [List.isEmpty_iff.mp hempty, List.map_nil, ite_self]
    rfl
  · rcases hfind : options.findConfig host.isFile (configBase file root) outside with
      ⟨_ | config, found⟩
    · simp only [bind, StateT.bind, hfind]
      rfl
    · simp only [bind, StateT.bind, hfind]
      rfl

/-- The actions at a span are the host's, and then the layer's unless the
host's are enough. -/
theorem fixesAt_eq (host : Host σ) (layer : Layer lib) (file : Path) (span : Span)
    (codes : List String) (outside : σ) :
    fixesAt host file span codes layer outside =
      (((host.fixesAt file span codes outside).1 ++
        (if layer.options.suppressWhileHostReports &&
            !(host.fixesAt file span codes outside).1.isEmpty then []
          else layer.actionsAt file span), layer),
        (host.fixesAt file span codes outside).2) := by
  rcases hown : host.fixesAt file span codes outside with ⟨own, after⟩
  simp only [fixesAt, bind, StateT.bind, liftM, monadLift, MonadLift.monadLift, StateT.lift, hown,
    pure, pure_apply, get, getThe, MonadStateOf.get, StateT.get]
  split
  · rw [List.append_nil]
    rfl
  · rfl

theorem fixesAt_of_open {host : Host σ} {layer : Layer lib} {file : Path} {span : Span}
    {codes : List String} {outside : σ}
    (hopen : (layer.options.suppressWhileHostReports &&
      !(host.fixesAt file span codes outside).1.isEmpty) = false) :
    (fixesAt host file span codes layer outside).1.1 =
      (host.fixesAt file span codes outside).1 ++ layer.actionsAt file span := by
  rw [fixesAt_eq, hopen, if_neg Bool.false_ne_true]

/-! ## Events -/

/-- What can happen to a layer: it is asked, it gets new options, it is told
that the configuration file changed, or the outside changes by itself. -/
inductive Event (σ : Type) where
  | query (query : Query)
  | updateOptions (options : Options)
  | configChanged
  | outside (change : σ → σ)

/-- Whether the event asks for the diagnostics of a file. -/
def Event.asks (file : Path) : Event σ → Bool
  | .query (.semantic asked) => asked.same file
  | _ => false

/-- The layer and the outside after an action. -/
def perform {α : Type} (action : Action σ lib α) (state : Layer lib × σ) : Layer lib × σ :=
  ((action state.1 state.2).1.2, (action state.1 state.2).2)

/-- The layer and the outside after an event. -/
def react (host : Host σ) (tools : Toolchain σ lib) (event : Event σ)
    (state : Layer lib × σ) : Layer lib × σ :=
  match event with
  | .query query => perform (answer host tools query) state
  | .updateOptions options => perform (updateOptions host options) state
  | .configChanged => perform (configChanged host) state
  | .outside change => (state.1, change state.2)

/-- The layer and the outside after a run. -/
def after (host : Host σ) (tools : Toolchain σ lib) (events : List (Event σ))
    (state : Layer lib × σ) : Layer lib × σ :=
  events.foldl (fun state event => react host tools event state) state

/-- The verdict of an event that asks for the diagnostics of `file`. -/
def verdictOf? (host : Host σ) (tools : Toolchain σ lib) (file : Path) (event : Event σ)
    (state : Layer lib × σ) : Option Verdict :=
  match event with
  | .query (.semantic asked) =>
    if asked.same file then some (verdict host tools asked state.1 state.2) else none
  | _ => none

/-- The verdicts of all requests for the diagnostics of `file` in a run. -/
def verdicts (host : Host σ) (tools : Toolchain σ lib) (file : Path) :
    List (Event σ) → Layer lib × σ → List Verdict
  | [], _ => []
  | event :: events, state =>
    (verdictOf? host tools file event state).toList ++
      verdicts host tools file events (react host tools event state)

/-! ## One event -/

section React

variable (host tools) (state : Layer lib × σ)

theorem react_semantic (file : Path) :
    react host tools (.query (.semantic file)) state =
      perform (semantic host tools file) state := rfl

/-- A request for diagnostics and new options are the only events that
change the layer, and only the first has a verdict. -/
theorem fst_react_cases (event : Event σ) :
    (∃ file, event = .query (.semantic file)) ∨ (∃ options, event = .updateOptions options) ∨
      (react host tools event state).1 = state.1 ∧
        ∀ file, verdictOf? host tools file event state = none := by
  cases event with
  | updateOptions options => exact Or.inr (Or.inl ⟨options, rfl⟩)
  | configChanged => exact Or.inr (Or.inr ⟨rfl, fun _ => rfl⟩)
  | outside change => exact Or.inr (Or.inr ⟨rfl, fun _ => rfl⟩)
  | query query =>
    cases query with
    | semantic file => exact Or.inl ⟨file, rfl⟩
    | syntactic file => exact Or.inr (Or.inr ⟨rfl, fun _ => rfl⟩)
    | sourceText file => exact Or.inr (Or.inr ⟨rfl, fun _ => rfl⟩)
    | fixesAt file span codes =>
      refine Or.inr (Or.inr ⟨?_, fun _ => rfl⟩)
      simp only [react, perform, answer, Functor.map, StateT.map, bind, StateT.bind, fixesAt_eq,
        pure, pure_apply]
    | combinedFix file group =>
      refine Or.inr (Or.inr ⟨?_, fun _ => rfl⟩)
      simp only [react, perform, answer, combinedFix]
      cases CodeAction.ruleOfGroup group <;> rfl

theorem fst_create (options : Options) (outside : σ) :
    (create host options outside : Layer lib × σ).1 =
      { options, runner := .empty, problems := .empty } := rfl

end React

theorem after_append (earlier later : List (Event σ)) (state : Layer lib × σ) :
    after host tools (earlier ++ later) state =
      after host tools later (after host tools earlier state) :=
  List.foldl_append

theorem after_cons (event : Event σ) (events : List (Event σ)) (state : Layer lib × σ) :
    after host tools (event :: events) state =
      after host tools events (react host tools event state) := rfl

/-- What holds at the start and is kept by every event holds after a run. -/
theorem after_induction {P : Layer lib × σ → Prop}
    (hstep : ∀ event state, P state → P (react host tools event state))
    (events : List (Event σ)) {state : Layer lib × σ} (hstart : P state) :
    P (after host tools events state) := by
  induction events generalizing state with
  | nil => exact hstart
  | cons event events ih => exact ih (hstep event state hstart)

end LintLayer.Layer
