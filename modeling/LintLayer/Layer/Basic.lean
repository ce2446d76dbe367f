import LintLayer.Action
import LintLayer.Diagnostic
import LintLayer.Runner

/-!
# The layer over a host

The host answers for a project: its own diagnostics and fixes, the texts of
its files, and a few services.  The layer stands in front of the host.  It
adds the analyzer's findings to the diagnostics of a file and offers fixes
for them, and it leaves everything else to the host.

For each file the layer keeps the problems of the latest pass.  Fixes are
offered from these problems only.
-/

namespace LintLayer

/-- What the layer needs from the host.  `σ` is the state of the host. -/
structure Host (σ : Type) where
  semantic : Path → StateM σ (List Diagnostic)
  syntactic : Path → StateM σ (List Diagnostic)
  fixesAt : Path → Span → List String → StateM σ (List CodeAction)
  combinedFix : Path → String → StateM σ CombinedActions
  sourceText : Path → StateM σ (Option String)
  /-- The root of the workspace, if the host knows one. -/
  workspaceRoot : StateM σ (Option Path)
  watch : Path → StateM σ Unit
  /-- Makes the host ask for all diagnostics again. -/
  refresh : StateM σ Unit
  /-- Whether a file stands at a path. -/
  isFile : Path → StateM σ Bool

/-- Why a pass gave no findings. -/
inductive PassError where
  | lint (error : LintError)
  | sourceUnavailable (file : Path)
  deriving DecidableEq, Repr

/-- The wording of the error. -/
def PassError.message : PassError → String
  | .lint error => "lint run failed: " ++ error.message
  | .sourceUnavailable file => "no source text for " ++ file.text

/-- What the layer keeps. -/
structure Layer (lib : Type) where
  options : Options
  runner : Runner lib
  /-- The problems of the latest pass of each file. -/
  problems : Path.Map ProblemSet

namespace Layer

variable {σ lib : Type}

/-- The problems of a file, in order. -/
def problemsOf (layer : Layer lib) (file : Path) : List Problem :=
  match layer.problems.get? file with
  | some registered => registered.problems
  | none => []

/-- Makes the host watch the configuration file of the analyzer: the one
that is set, or the one that is found. -/
def watchConfig (host : Host σ) (options : Options) : StateM σ Unit := do
  match ← host.workspaceRoot with
  | none => return ()
  | some root =>
    match options.configFileFrom root with
    | some config => host.watch config
    | none =>
      match ← options.findConfig host.isFile root with
      | some config => host.watch config
      | none => return ()

/-- A new layer. -/
def create (host : Host σ) (options : Options) : StateM σ (Layer lib) := do
  watchConfig host options
  return { options, runner := .empty, problems := .empty }

/-- An action on the layer and on the host. -/
abbrev Action (σ lib : Type) := StateT (Layer lib) (StateM σ)

variable (host : Host σ) (tools : Toolchain σ lib)

/-- Takes new options.  What was remembered under the old ones is
forgotten. -/
def updateOptions (options : Options) : Action σ lib Unit := do
  modify fun layer => { layer with options, runner := layer.runner.clear }
  watchConfig host options
  host.refresh

/-- Reacts to a change of the configuration file. -/
def configChanged : Action σ lib Unit :=
  host.refresh

/-- Runs the analyzer on a text of a file. -/
def runAnalyzer (file : Path) (text : String) (root : Option Path) :
    Action σ lib (Except LintError RunResult) := fun layer => do
  let config := RunConfiguration.ofOptions layer.options root
  let (result, runner) ← (Runner.run tools file (some text) config).run layer.runner
  return (result, { layer with runner })

/-- The directory whose configuration counts for a file. -/
def configBase (file : Path) (root : Option Path) : Path :=
  (root.or file.parent?).getD ⟨"."⟩

/-- The diagnostics for the warnings of a run.  They are shown only where
the analyzer is configured. -/
def warningDiagnostics (options : Options) (file : Path) (root : Option Path)
    (warnings : List String) : StateM σ (List Diagnostic) := do
  if warnings.isEmpty then return []
  else
    match ← options.findConfig host.isFile (configBase file root) with
    | some _ => return warnings.map (Diagnostic.operational file)
    | none => return []

/-- One pass of the analyzer over a file: its diagnostics.  The problems
found replace the ones that were kept. -/
def pass (file : Path) : Action σ lib (Except PassError (List Diagnostic)) := do
  match ← host.sourceText file with
  | none => return .error (.sourceUnavailable file)
  | some text =>
    let root ← host.workspaceRoot
    match ← runAnalyzer tools file text root with
    | .error error => return .error (.lint error)
    | .ok result =>
      let options := (← get).options
      let warnings ← warningDiagnostics host options file root result.warnings
      let table := LineTable.ofText text
      let findings := result.report.findingsFor file
      let registered := ProblemSet.ofFindings table findings
      modify fun layer => { layer with problems := layer.problems.insert file registered }
      let published := findings.map fun finding =>
        Diagnostic.ofProblem file (Problem.ofFinding table finding) options.showAsWarnings
      return .ok (warnings ++ published)

/-- The diagnostics of a file: the host's, then the analyzer's. -/
def semantic (file : Path) : Action σ lib (List Diagnostic) := do
  let own ← host.semantic file
  let options := (← get).options
  if options.suppressWhileHostReports && !own.isEmpty then return own
  else
    modify fun layer => { layer with problems := layer.problems.erase file }
    if options.ignoreDefinitionFiles && file.isDefinition then return own
    else
      match ← pass host tools file with
      | .ok added => return own ++ added
      | .error _ => return own

/-- The host's other diagnostics. -/
def syntactic (file : Path) : Action σ lib (List Diagnostic) :=
  host.syntactic file

/-- The host's text of a file. -/
def sourceText (file : Path) : Action σ lib (Option String) :=
  host.sourceText file

/-- The actions for a problem: its own fix and the fix of its rule, if there
is more than one problem to fix, then the fix of the whole file and the
comment that silences the rule. -/
def actionsFor (file : Path) (registered : ProblemSet) (problem : Problem) : List CodeAction :=
  let fixes :=
    match problem.fixable, problem.rule with
    | true, some rule =>
      CodeAction.fixOne file problem ::
        (if 2 ≤ (registered.fixableFor rule).length then [CodeAction.fixRule file registered rule]
          else [])
    | _, _ => []
  fixes ++ CodeAction.fixAll file registered :: (CodeAction.disableRule? file problem).toList

/-- The actions that the layer adds at a span. -/
def actionsAt (layer : Layer lib) (file : Path) (span : Span) : List CodeAction :=
  match layer.problems.get? file with
  | none => []
  | some registered =>
    match registered.get? span with
    | none => []
    | some problem => actionsFor file registered problem

/-- The actions at a span: the host's, then the layer's. -/
def fixesAt (file : Path) (span : Span) (codes : List String) : Action σ lib (List CodeAction) := do
  let own ← host.fixesAt file span codes
  let layer ← get
  if layer.options.suppressWhileHostReports && !own.isEmpty then return own
  else return own ++ layer.actionsAt file span

/-- The changes of all fixes of a rule in a file. -/
def changesForRule (layer : Layer lib) (file : Path) (rule : String) : List FileEdits :=
  match layer.problems.get? file with
  | none => []
  | some registered =>
    (CodeAction.fixRule file registered rule).changes.filter fun change => !change.edits.isEmpty

/-- All fixes of a group.  Groups that are not the layer's are the
host's. -/
def combinedFix (file : Path) (group : String) : Action σ lib CombinedActions := do
  match CodeAction.ruleOfGroup group with
  | none => host.combinedFix file group
  | some rule => return { changes := (← get).changesForRule file rule, commands := [] }

end Layer

end LintLayer
