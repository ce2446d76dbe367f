import LintLayer.Proofs.Runner.Recent

/-!
# The warnings of repeated runs

The search for the analyzer warns about a directory that is set and does not
exist.  A file that is remembered is not searched for, so a run of it comes
without this warning; the advice to install the analyzer and the analyzer's
own warnings come with every run.

`fst_run` gives the answer of one run, warnings included, by whether its file
is remembered, and `fst_run_runAll` that of a run after others.
`warnings_after_runs` compares it with the run of a runner that remembers
nothing, and `second_run_loses_warning` is the shortest run in which the two
differ.
-/

namespace LintLayer

variable {σ lib : Type}

/-! ## The oracle as a toolchain -/

/-- The toolchain that asks the oracle. -/
def Oracle.tools (oracle : Oracle lib) : Toolchain Unit lib where
  resolve package nodePath directory :=
    return oracle.resolve package (nodePath.map Path.components) directory.components
  globalRoot manager := return oracle.globalRoot manager
  load path := return oracle.load path.components
  lint library request := return oracle.lint library request
  pathExists path := return oracle.pathExists path

theorem Oracle.tools_answersAs (oracle : Oracle lib) : oracle.tools.AnswersAs oracle :=
  ⟨fun _ _ _ _ => rfl, fun _ _ => rfl, fun _ _ => rfl, fun _ _ _ => rfl, fun _ _ => rfl⟩

/-! ## The warnings of the search -/

/-- A result with further warnings before its own. -/
def RunResult.noting (notices : List String) (result : RunResult) : RunResult :=
  { result with warnings := notices ++ result.warnings }

/-- The warnings of the search come before all others. -/
theorem Oracle.answer_eq_noting (oracle : Oracle lib) {file : Path} {config : RunConfiguration}
    (hskips : ¬ config.skips file = true) (noticed : List String) (text : Option String) :
    oracle.answer noticed file text config =
      (oracle.answer [] file text config).map (RunResult.noting noticed) := by
  rw [answer, answer, if_neg hskips, if_neg hskips]
  split
  · rfl
  split
  · simp [Except.map, RunResult.noting, RunConfiguration.result]
  rename_i library _
  cases oracle.lint library (config.request file text) <;> rfl

namespace Runner

variable {tools : Toolchain σ lib} {oracle : Oracle lib} {config : RunConfiguration}

section Run

variable (htools : tools.AnswersAs oracle) {runner : Runner lib}
  (hrunner : Agrees oracle config.nodePath config.packageManager runner)

include htools hrunner

/-- The search warns only for a file that is not remembered. -/
theorem warnings_libraryPath (file : Path) (outside : σ) :
    (libraryPath tools file config runner outside).1.1.2 =
      if file.components ∈ runner.resolutions.keys then [] else oracle.notices config.nodePath := by
  rcases hget : runner.resolutions.get file.components with ⟨_ | found, resolutions⟩
  · have hnew : file.components ∉ runner.resolutions.keys := by
      rw [← Recency.isSome_get_iff, hget]
      simp
    rw [libraryPath_of_new hget, if_neg hnew]
    exact congrArg Prod.snd (resolveLibrary_returns htools file config runner outside hrunner).1
  · have hheld : file.components ∈ runner.resolutions.keys := by
      rw [← Recency.isSome_get_iff, hget]
      rfl
    rw [libraryPath_of_held hget, if_pos hheld]

/-- The answer of a run, with its warnings. -/
theorem fst_run (file : Path) (text : Option String) (outside : σ) :
    (run tools file text config runner outside).1.1 =
      oracle.answer
        (if file.components ∈ runner.resolutions.keys then [] else oracle.notices config.nodePath)
        file text config := by
  rw [run_eq]
  split
  · rename_i hskips
    rw [Oracle.answer, if_pos hskips]
    rfl
  · rename_i hskips
    obtain ⟨hfound, hagrees⟩ := libraryPath_returns htools file config runner outside hrunner
    have hfinish : (finish tools file text config _ _ _).1.1 = oracle.answer _ file text config :=
      (finish_returns htools hskips hfound _
        (libraryPath tools file config runner outside).2 hagrees).1
    rw [warnings_libraryPath htools hrunner] at hfinish
    exact hfinish

end Run

/-! ## Many runs of one configuration -/

section Runs

variable (htools : tools.AnswersAs oracle)

include htools

/-- A runner that remembers nothing gives all warnings. -/
theorem fst_run_empty (file : Path) (text : Option String) (config : RunConfiguration)
    (outside : σ) :
    (run tools file text config empty outside).1.1 =
      oracle.answer (oracle.notices config.nodePath) file text config :=
  fst_run htools agrees_empty file text outside

/-- Runs of one configuration keep the memory in agreement. -/
theorem agrees_runAll {jobs : List Job} (hjobs : ∀ job ∈ jobs, job.config = config)
    (outside : σ) :
    Agrees oracle config.nodePath config.packageManager
      (runAll tools jobs (empty, outside)).1 := by
  induction jobs using List.reverseRecOn with
  | nil => exact agrees_empty
  | append_singleton jobs job ih =>
    have hlast : job.config = config := hjobs job (List.mem_append_right _ List.mem_cons_self)
    have hagrees := ih fun other hother => hjobs other (List.mem_append_left _ hother)
    rw [runAll_concat]
    subst hlast
    exact (run_returns htools job.file job.text job.config _ _ hagrees).2

/-- The answer of a run after others, with its warnings. -/
theorem fst_run_runAll {jobs : List Job} (hjobs : ∀ job ∈ jobs, job.config = config)
    (file : Path) (text : Option String) (outside : σ) :
    let state := runAll tools jobs (empty, outside)
    (run tools file text config state.1 state.2).1.1 =
      oracle.answer
        (if file.components ∈ (Recency.latest (usesOf jobs)).take resolutionCapacity then []
          else oracle.notices config.nodePath)
        file text config := by
  intro state
  rw [fst_run htools (agrees_runAll htools hjobs outside),
    (remembers_runAll tools jobs outside).keys]

end Runs

/-! ## The warning that is lost -/

/-- The directory to search is set, but does not exist, and the file is not
skipped: a run of the file has something to warn about. -/
structure Ignores (oracle : Oracle lib) (config : RunConfiguration) (file nodePath : Path) :
    Prop where
  set : config.nodePath = some nodePath
  missing : oracle.pathExists nodePath = false
  wanted : ¬ config.skips file = true

theorem Ignores.notices {file nodePath : Path} (h : Ignores oracle config file nodePath) :
    oracle.notices config.nodePath = [ignoredNodePathMessage nodePath] := by
  simp [Oracle.notices, h.set, h.missing]

/-- The warning comes first.  Without the search's warnings it is missing, and
all else is the same. -/
theorem Ignores.answer_of_ok {file nodePath : Path} {text : Option String} {result : RunResult}
    (h : Ignores oracle config file nodePath)
    (hresult : oracle.answer (oracle.notices config.nodePath) file text config = .ok result) :
    ∃ rest, result.warnings = ignoredNodePathMessage nodePath :: rest ∧
      oracle.answer [] file text config = .ok { result with warnings := rest } := by
  rw [h.notices, oracle.answer_eq_noting h.wanted] at hresult
  cases hplain : oracle.answer [] file text config with
  | error error =>
    rw [hplain] at hresult
    cases hresult
  | ok plain =>
    rw [hplain] at hresult
    cases hresult
    exact ⟨plain.warnings, rfl, rfl⟩

/-- An analyzer that fails does so with and without the warning. -/
theorem Ignores.answer_of_error {file nodePath : Path} {text : Option String} {error : LintError}
    (h : Ignores oracle config file nodePath)
    (herror : oracle.answer (oracle.notices config.nodePath) file text config = .error error) :
    oracle.answer [] file text config = .error error := by
  rw [oracle.answer_eq_noting h.wanted] at herror
  cases hplain : oracle.answer [] file text config with
  | error other =>
    rw [hplain] at herror
    cases herror
    rfl
  | ok plain =>
    rw [hplain] at herror
    cases herror

/-- Without such a directory the warnings of the search do not count. -/
theorem answer_notices_of_not_ignores {file : Path} (text : Option String)
    (h : ∀ nodePath, ¬ Ignores oracle config file nodePath) :
    oracle.answer (oracle.notices config.nodePath) file text config =
      oracle.answer [] file text config := by
  by_cases hskips : config.skips file = true
  · rw [Oracle.answer, Oracle.answer, if_pos hskips, if_pos hskips]
  · have hnone : oracle.notices config.nodePath = [] := by
      unfold Oracle.notices
      split
      · rfl
      · rename_i nodePath hset
        split
        · rfl
        · rename_i hmissing
          exact absurd ⟨hset, Bool.eq_false_iff.mpr hmissing, hskips⟩ (h nodePath)
    rw [hnone]

/-- How the warnings of a run depend on the runs before it, all of them with
the same configuration.  They are those of a runner that remembers nothing,
unless the file is one of the last that were run, the directory to search is
set but missing, the file is not skipped and the analyzer does not fail.  In
this case the warning about the directory, which comes first and which a
runner that remembers nothing always gives, is missing and all else is the
same. -/
theorem warnings_after_runs (htools : tools.AnswersAs oracle) {jobs : List Job}
    (hjobs : ∀ job ∈ jobs, job.config = config) (file : Path) (text : Option String)
    (outside cold : σ) :
    let state := runAll tools jobs (empty, outside)
    let again := (run tools file text config state.1 state.2).1.1
    let fresh := (run tools file text config empty cold).1.1
    let known := file.components ∈ (Recency.latest (usesOf jobs)).take resolutionCapacity
    (again.map RunResult.warnings = fresh.map RunResult.warnings ↔
      (known → ∀ nodePath, Ignores oracle config file nodePath →
        ∃ error, fresh = .error error)) ∧
    ∀ nodePath, Ignores oracle config file nodePath → ∀ result, fresh = .ok result →
      ∃ rest, result.warnings = ignoredNodePathMessage nodePath :: rest ∧
        again = .ok { result with warnings := if known then rest else result.warnings } := by
  intro state again fresh known
  have hagain : again = oracle.answer (if known then [] else oracle.notices config.nodePath)
      file text config := fst_run_runAll htools hjobs file text outside
  have hfresh : fresh = oracle.answer (oracle.notices config.nodePath) file text config :=
    fst_run_empty htools file text config cold
  have hlost : ∀ nodePath, Ignores oracle config file nodePath → ∀ result, fresh = .ok result →
      ∃ rest, result.warnings = ignoredNodePathMessage nodePath :: rest ∧
        again = .ok { result with warnings := if known then rest else result.warnings } := by
    intro nodePath hignores result hresult
    obtain ⟨rest, hwarnings, hrest⟩ := hignores.answer_of_ok (hfresh.symm.trans hresult)
    refine ⟨rest, hwarnings, ?_⟩
    by_cases hknown : known
    · rw [hagain, if_pos hknown, if_pos hknown, hrest]
    · rw [hagain, if_neg hknown, if_neg hknown, ← hfresh, hresult]
  refine ⟨⟨?_, ?_⟩, hlost⟩
  · intro hsame hknown nodePath hignores
    cases hresult : fresh with
    | error error => exact ⟨error, rfl⟩
    | ok result =>
      obtain ⟨rest, hwarnings, hrest⟩ := hlost nodePath hignores result hresult
      rw [hrest, hresult, if_pos hknown] at hsame
      have hshort : rest = ignoredNodePathMessage nodePath :: rest :=
        (Except.ok.inj hsame).trans hwarnings
      exact absurd hshort (List.cons_ne_self _ _).symm
  · intro hfails
    by_cases hknown : known
    · rw [hagain, if_pos hknown]
      by_cases hignores : ∃ nodePath, Ignores oracle config file nodePath
      · obtain ⟨nodePath, hignores⟩ := hignores
        obtain ⟨error, herror⟩ := hfails hknown nodePath hignores
        rw [hignores.answer_of_error (hfresh.symm.trans herror), herror]
      · rw [hfresh, answer_notices_of_not_ignores text (not_exists.mp hignores)]
    · rw [hagain, hfresh, if_neg hknown]

/-- An outside in which every file has an analyzer with advice of its own,
and no directory exists. -/
def advising : Oracle Unit where
  resolve _ _ _ := some ⟨"/lib"⟩
  globalRoot _ := none
  load _ := .ok ()
  lint _ _ := .ok { warnings := ["advice"] }
  pathExists _ := false

/-- Two files are run, and the first one once more under another spelling of
its path: only the analyzer's own advice is left. -/
theorem warnings_after_runs_advising :
    let config : RunConfiguration := { nodePath := some ⟨"/missing"⟩ }
    let jobs : List Job := [⟨⟨"/a.ts"⟩, none, config⟩, ⟨⟨"/b.ts"⟩, some "x", config⟩]
    let state := runAll advising.tools jobs (empty, ())
    let again := (run advising.tools ⟨"//a.ts"⟩ none config state.1 state.2).1.1
    let fresh := (run advising.tools ⟨"//a.ts"⟩ none config empty ()).1.1
    advising.tools.AnswersAs advising ∧ (∀ job ∈ jobs, job.config = config) ∧
      Ignores advising config ⟨"//a.ts"⟩ ⟨"/missing"⟩ ∧
      fresh = .ok { warnings := [ignoredNodePathMessage ⟨"/missing"⟩, "advice"] } ∧
      again = .ok { warnings := ["advice"] } ∧
      again.map RunResult.warnings ≠ fresh.map RunResult.warnings := by
  intro config jobs state again fresh
  have hjobs : ∀ job ∈ jobs, job.config = config := by decide +kernel
  have hignores : Ignores advising config ⟨"//a.ts"⟩ ⟨"/missing"⟩ :=
    ⟨rfl, rfl, by decide +kernel⟩
  have hknown : (⟨"//a.ts"⟩ : Path).components ∈
      (Recency.latest (usesOf jobs)).take resolutionCapacity := by
    decide +kernel
  have hfresh : fresh = .ok { warnings := [ignoredNodePathMessage ⟨"/missing"⟩, "advice"] } := by
    decide +kernel
  obtain ⟨hsame, hlost⟩ :=
    warnings_after_runs advising.tools_answersAs hjobs ⟨"//a.ts"⟩ none () ()
  obtain ⟨rest, hwarnings, hagain⟩ := hlost _ hignores _ hfresh
  refine ⟨advising.tools_answersAs, hjobs, hignores, hfresh, ?_, ?_⟩
  · rw [if_pos hknown, ← (List.cons.inj hwarnings).2] at hagain
    exact hagain
  · intro hequal
    obtain ⟨error, herror⟩ := hsame.mp hequal hknown _ hignores
    exact absurd (hfresh.symm.trans herror) (by simp)

/-- Nothing changes between two runs of one file, and the second one does not
give the warning of the first. -/
theorem second_run_loses_warning :
    let config : RunConfiguration := { nodePath := some ⟨"/missing"⟩ }
    let job : Job := ⟨⟨"/a.ts"⟩, none, config⟩
    let state := runAll advising.tools [job] (empty, ())
    advising.tools.AnswersAs advising ∧ config.skips job.file = false ∧
      (run advising.tools job.file job.text config empty ()).1.1.map RunResult.warnings =
        .ok [ignoredNodePathMessage ⟨"/missing"⟩, "advice"] ∧
      (run advising.tools job.file job.text config state.1 state.2).1.1.map RunResult.warnings =
        .ok ["advice"] := by
  intro config job state
  exact ⟨advising.tools_answersAs, by decide +kernel, by decide +kernel, by decide +kernel⟩

end Runner

end LintLayer
