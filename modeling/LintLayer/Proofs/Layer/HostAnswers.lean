import LintLayer.Proofs.Action.Group
import LintLayer.Proofs.Layer.OfferedEdits
import LintLayer.Proofs.Layer.Publication

/-!
# The host's own answers

The layer adds to what the host says and never takes anything away.  Here
this is said for every layer and every outside, whatever the toolchain does:
it may find nothing, fail to load, or fail in the run.

`Unlinted` lists the cases in which nothing at all is added to the
diagnostics of a file.  In two of them, a file that is excluded and a plain
script, a run is made and its result is empty (`run_of_skips`); in the others
no result is reached.
-/

namespace LintLayer

variable {σ lib : Type}

/-- A file that is skipped is not looked at, and nothing is asked. -/
theorem Runner.run_of_skips (tools : Toolchain σ lib) {file : Path} {config : RunConfiguration}
    (h : config.skips file = true) (text : Option String) (runner : Runner lib) (outside : σ) :
    Runner.run tools file text config runner outside =
      ((.ok (config.result {} []), runner), outside) := by
  rw [Runner.run, if_pos h]
  rfl

namespace Layer

variable {host : Host σ} {tools : Toolchain σ lib} {file : Path} {layer : Layer lib} {outside : σ}

/-- The root of the workspace that the host names in a request for the
diagnostics of a file, and the outside after that. -/
def rootSeen (host : Host σ) (file : Path) (outside : σ) : Option Path × σ :=
  host.workspaceRoot (host.sourceText file (host.semantic file outside).2).2

/-- Why nothing is added to the diagnostics of a file: the host reports
something itself and that is to be enough, the file is a declaration file,
excluded, or a plain script, and such files are left out, the host has no
text of it, or the run failed. -/
inductive Unlinted (host : Host σ) (tools : Toolchain σ lib) (file : Path) (layer : Layer lib)
    (outside : σ) : Prop where
  | suppressed (hoption : layer.options.suppressWhileHostReports = true)
      (hown : (host.semantic file outside).1 ≠ [])
  | definition (hoption : layer.options.ignoreDefinitionFiles = true)
      (hfile : file.isDefinition = true)
  | excluded (hfile : (RunConfiguration.ofOptions layer.options
      (rootSeen host file outside).1).excludes file = true)
  | script (hoption : layer.options.lintScripts = false) (hfile : file.isScript = true)
  | noText (htext : snapshot host file outside = none)
  | failed (text : String) (error : LintError) (htext : snapshot host file outside = some text)
      (hrun : (Runner.run tools file (some text)
        (.ofOptions layer.options (rootSeen host file outside).1) layer.runner
        (rootSeen host file outside).2).1.1 = .error error)

/-- Where nothing is to be added, a run that gives a result gives an empty
one. -/
theorem Unlinted.result_empty (h : Unlinted host tools file layer outside) {text : String}
    {result : RunResult} (hlinted : verdict host tools file layer outside = .linted text result) :
    result.warnings = [] ∧ result.report.findingsFor file = [] := by
  have hanswered := semantic_answered host tools file layer outside
  rw [hlinted] at hanswered
  generalize semantic host tools file layer outside = answer at hanswered
  cases hanswered with
  | @linted own asked text read root located result runner ran warnings after hown hopen hwanted
      htext hroot hrun =>
    have hseen : rootSeen host file outside = (root, located) := by
      rw [rootSeen, hown, htext, hroot]
    have hskipped (hskips : (RunConfiguration.ofOptions layer.options root).skips file = true) :
        result.warnings = [] ∧ result.report.findingsFor file = [] := by
      rw [Runner.run_of_skips tools hskips] at hrun
      cases hrun
      exact ⟨rfl, rfl⟩
    cases h with
    | suppressed hoption hreports =>
      rw [hown] at hreports
      simp [hoption, hreports] at hopen
    | definition hoption hfile => simp [hoption, hfile] at hwanted
    | excluded hfile =>
      rw [hseen] at hfile
      exact hskipped (by rw [RunConfiguration.skips, hfile, Bool.true_or])
    | script hoption hfile =>
      have hscripts : (RunConfiguration.ofOptions layer.options root).lintScripts = false := hoption
      exact hskipped (by rw [RunConfiguration.skips, hfile, hscripts]; simp)
    | noText hnone => simp [snapshot, hown, htext] at hnone
    | failed _ _ hsome hfailed =>
      rw [snapshot, hown, htext] at hsome
      cases hsome
      simp [hseen, hrun] at hfailed

/-- A request answers with the host's diagnostics and further ones, which are
for the file and come from the analyzer. -/
theorem exists_added_semantic (host : Host σ) (tools : Toolchain σ lib) (file : Path)
    (layer : Layer lib) (outside : σ) :
    ∃ added, (semantic host tools file layer outside).1.1 =
        (host.semantic file outside).1 ++ added ∧
      (∀ diagnostic ∈ added, diagnostic.file = file ∧ diagnostic.source = some "eslint") ∧
      (Unlinted host tools file layer outside → added = []) := by
  cases hverdict : verdict host tools file layer outside with
  | linted text result =>
    refine ⟨_, (semantic_of_linted hverdict).1, ?_, ?_⟩
    · intro diagnostic hdiagnostic
      rcases List.mem_append.mp hdiagnostic with hwarning | hpublished
      · split at hwarning
        · obtain ⟨message, _, rfl⟩ := List.mem_map.mp hwarning
          exact ⟨rfl, rfl⟩
        · simp at hwarning
      · obtain ⟨problem, _, rfl⟩ := List.mem_map.mp hpublished
        exact ⟨rfl, rfl⟩
    · intro hunlinted
      obtain ⟨hwarnings, hfindings⟩ := hunlinted.result_empty hverdict
      simp [hwarnings, hfindings, Verdict.published, Verdict.problems]
  | suppressed | definition | noText | failed =>
    refine ⟨[], ?_, by simp, fun _ => rfl⟩
    have hanswered := semantic_answered host tools file layer outside
    rw [hverdict] at hanswered
    generalize semantic host tools file layer outside = answer at hanswered ⊢
    cases hanswered with
    | _ hown => rw [hown, List.append_nil]

/-- A group that names no rule is left to the host. -/
theorem combinedFix_of_no_rule (host : Host σ) (layer : Layer lib) (file : Path) {group : String}
    (h : CodeAction.ruleOfGroup group = none) (outside : σ) :
    combinedFix host file group layer outside =
      (((host.combinedFix file group outside).1, layer),
        (host.combinedFix file group outside).2) := by
  rw [combinedFix, h]
  rfl

/-- In any layer and any outside, and with any toolchain: the diagnostics of
a file are the host's, in their order, and then diagnostics for this file
from the analyzer, of which there are none in the cases of `Unlinted`.  The
actions at a span begin with the host's.  A group that is not the mark with
the name of a rule is answered by the host alone, and so are the requests for
the other diagnostics and for the text of a file. -/
theorem host_answers_kept (host : Host σ) (tools : Toolchain σ lib) (layer : Layer lib)
    (outside : σ) :
    (∀ file, ∃ added, (semantic host tools file layer outside).1.1 =
        (host.semantic file outside).1 ++ added ∧
      (∀ diagnostic ∈ added, diagnostic.file = file ∧ diagnostic.source = some "eslint") ∧
      (Unlinted host tools file layer outside → added = [])) ∧
    (∀ file span codes, (host.fixesAt file span codes outside).1 <+:
      (fixesAt host file span codes layer outside).1.1) ∧
    (∀ file group, (∀ rule, rule ≠ "" → group ≠ "eslint:" ++ rule) →
      combinedFix host file group layer outside =
        (((host.combinedFix file group outside).1, layer),
          (host.combinedFix file group outside).2)) ∧
    (∀ file, syntactic host file layer outside =
      (((host.syntactic file outside).1, layer), (host.syntactic file outside).2)) ∧
    ∀ file, sourceText host file layer outside =
      (((host.sourceText file outside).1, layer), (host.sourceText file outside).2) := by
  refine ⟨fun file => exists_added_semantic host tools file layer outside, ?_, ?_,
    fun file => rfl, fun file => rfl⟩
  · intro file span codes
    rw [fixesAt_eq]
    exact List.prefix_append _ _
  · intro file group hgroup
    exact combinedFix_of_no_rule host layer file (CodeAction.ruleOfGroup_eq_none_iff.mpr hgroup)
      outside

/-- The host reports something, the run over the file fails, and a group is
asked for that has the mark and names no rule. -/
theorem host_answers_kept_desk :
    let file : Path := ⟨"/a.ts"⟩
    let report : Diagnostic := ⟨file, ⟨0, 0⟩, "open brace", .error, none, none⟩
    let desk : Desk := ⟨"x", [report]⟩
    let tools := { Desk.tools with lint := fun _ _ => return .error .undecodable }
    let layer : Layer Unit := { options := {}, runner := .empty, problems := .empty }
    Unlinted Desk.host tools file layer desk ∧
      (semantic Desk.host tools file layer desk).1.1 = [report] ∧
      (∀ rule, rule ≠ "" → "eslint:" ≠ "eslint:" ++ rule) ∧
      combinedFix Desk.host file "eslint:" layer desk = ((⟨[], []⟩, layer), desk) := by
  intro file report desk tools layer
  have hunlinted : Unlinted Desk.host tools file layer desk :=
    .failed "x" .undecodable rfl (by decide +kernel)
  have hgroup : ∀ rule, rule ≠ "" → "eslint:" ≠ "eslint:" ++ rule :=
    CodeAction.ruleOfGroup_eq_none_iff.mp (by decide +kernel)
  obtain ⟨hsemantic, _, hcombined, _⟩ := host_answers_kept Desk.host tools layer desk
  obtain ⟨added, hanswer, _, hnone⟩ := hsemantic file
  refine ⟨hunlinted, ?_, hgroup, hcombined file "eslint:" hgroup⟩
  rw [hanswer, hnone hunlinted, List.append_nil]
  rfl

end Layer

end LintLayer
