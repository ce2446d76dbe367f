import LintLayer.Proofs.Recency.Keys
import LintLayer.Proofs.Runner.Memory
import Mathlib.Data.List.Induction

/-!
# The files that a runner remembers

After any runs, on any files and in any configurations, the runner remembers
where the analyzer is for the files that were run last, skipped runs left
out.  What the toolchain answers does not matter for this.

Of a run only the search touches the resolutions.  `KeepsResolutions` says
that an action does not, with rules that follow the way actions are written.
`remembers_perform` is the step and `remembers_runAll` the result for many runs.
-/

namespace LintLayer.Runner

variable {σ lib : Type} (tools : Toolchain σ lib)

/-! ## Actions that leave the resolutions alone -/

/-- The action does not change where the analyzer was found. -/
def KeepsResolutions {α : Type} (action : Action σ lib α) : Prop :=
  ∀ runner outside, (action runner outside).1.2.resolutions = runner.resolutions

section Rules

variable {α β : Type}

theorem keeps_pure (answer : α) : KeepsResolutions (pure answer : Action σ lib α) :=
  fun _ _ => rfl

theorem keeps_bind {first : Action σ lib α} {next : α → Action σ lib β}
    (hfirst : KeepsResolutions first) (hnext : ∀ answer, KeepsResolutions (next answer)) :
    KeepsResolutions (first >>= next) := by
  intro runner outside
  exact (hnext _ _ _).trans (hfirst runner outside)

theorem keeps_lift (action : StateM σ α) :
    KeepsResolutions (liftM action : Action σ lib α) :=
  fun _ _ => rfl

theorem keeps_get : KeepsResolutions (get : Action σ lib (Runner lib)) :=
  fun _ _ => rfl

theorem keeps_modify {change : Runner lib → Runner lib}
    (h : ∀ runner, (change runner).resolutions = runner.resolutions) :
    KeepsResolutions (modify change : Action σ lib PUnit) :=
  fun runner _ => h runner

end Rules

theorem globalRoot_keeps (manager : PackageManager) :
    KeepsResolutions (globalRoot tools manager) := by
  refine keeps_bind keeps_get fun runner => ?_
  split
  · exact keeps_pure _
  · refine keeps_bind (keeps_lift _) fun root => ?_
    exact keeps_bind (keeps_modify fun _ => rfl) fun _ => keeps_pure root

theorem resolveLibrary_keeps (file : Path) (config : RunConfiguration) :
    KeepsResolutions (resolveLibrary tools file config) := by
  refine keeps_bind (keeps_lift _) fun searched => ?_
  refine keeps_bind (keeps_lift _) fun found => ?_
  cases found with
  | some library => exact keeps_pure _
  | none =>
    refine keeps_bind (globalRoot_keeps tools config.packageManager) fun root => ?_
    cases root with
    | none => exact keeps_pure _
    | some root => exact keeps_bind (keeps_lift _) fun library => keeps_pure _

theorem loadLibrary_keeps (path : Path) : KeepsResolutions (loadLibrary tools path) := by
  refine keeps_bind keeps_get fun runner => ?_
  split
  · exact keeps_pure _
  · refine keeps_bind (keeps_lift _) fun loaded => ?_
    exact keeps_bind (keeps_modify fun _ => rfl) fun _ => keeps_pure loaded

theorem finish_keeps (file : Path) (text : Option String) (config : RunConfiguration)
    (searched : Option Path × List String) :
    KeepsResolutions (finish tools file text config searched) := by
  unfold finish
  split
  · exact keeps_pure _
  · refine keeps_bind (loadLibrary_keeps tools _) fun loaded => ?_
    cases loaded with
    | error error => exact keeps_pure _
    | ok library =>
      refine keeps_bind (keeps_lift _) fun outcome => ?_
      cases outcome with
      | error error => exact keeps_pure _
      | ok outcome => exact keeps_pure _

/-! ## The search -/

section Search

variable {tools} {file : Path} {config : RunConfiguration} {runner : Runner lib} {outside : σ}
  {resolutions : Recency (List Path.Component) (Option Path)}

/-- A file that is remembered is not searched for, and there are no
warnings. -/
theorem libraryPath_of_held {found : Option Path}
    (hget : runner.resolutions.get file.components = (some found, resolutions)) :
    libraryPath tools file config runner outside =
      (((found, []), { runner with resolutions }), outside) := by
  change ((libraryPath tools file config).run runner).run outside = _
  simp only [libraryPath, StateT.run_bind, StateT.run_get, StateT.run_set, StateT.run_pure,
    pure_bind, hget]
  rfl

/-- What the search for any other file gives is remembered. -/
theorem libraryPath_of_new
    (hget : runner.resolutions.get file.components = (none, resolutions)) :
    libraryPath tools file config runner outside =
      let searched := resolveLibrary tools file config runner outside
      ((searched.1.1,
        { searched.1.2 with
          resolutions :=
            (searched.1.2.resolutions.insert file.components searched.1.1.1).2 }),
        searched.2) := by
  have hsame : resolutions = runner.resolutions := by
    have heq := Recency.get_eq_of_none (congrArg Prod.fst hget)
    rw [hget] at heq
    exact heq
  subst hsame
  change ((libraryPath tools file config).run runner).run outside = _
  simp only [libraryPath, StateT.run_bind, StateT.run_get, StateT.run_set, pure_bind, hget]
  rfl

end Search

/-! ## One run -/

/-- The runner remembers the files of `uses` that were used last, as many as
there is room for. -/
structure Remembers (runner : Runner lib) (uses : List (List Path.Component)) : Prop where
  capacity : runner.resolutions.capacity = resolutionCapacity
  keys : runner.resolutions.keys = (Recency.latest uses).take resolutionCapacity

theorem remembers_empty : Remembers (empty : Runner lib) [] :=
  ⟨rfl, rfl⟩

theorem Remembers.bounded {runner : Runner lib} {uses : List (List Path.Component)}
    (h : runner.Remembers uses) : runner.resolutions.Bounded := by
  rw [Recency.Bounded, h.capacity, h.keys]
  exact List.length_take_le _ _

/-- The search makes its file the most recent one. -/
theorem remembers_libraryPath {runner : Runner lib} {uses : List (List Path.Component)}
    (h : runner.Remembers uses) (file : Path) (config : RunConfiguration) (outside : σ) :
    Remembers (libraryPath tools file config runner outside).1.2 (uses ++ [file.components]) := by
  have htouch : Recency.touch runner.resolutions.capacity file.components runner.resolutions.keys =
      (Recency.latest (uses ++ [file.components])).take resolutionCapacity := by
    rw [h.capacity, h.keys, Recency.take_latest_concat (by decide)]
  rcases hget : runner.resolutions.get file.components with ⟨_ | found, resolutions⟩
  · rw [libraryPath_of_new hget]
    have hkept := resolveLibrary_keeps tools file config runner outside
    constructor
    · simp only [hkept, Recency.capacity_insert, h.capacity]
    · simp only [hkept, Recency.keys_insert h.bounded, htouch]
  · have hheld : (runner.resolutions.get file.components).1.isSome = true := by rw [hget]; rfl
    have hkeys := Recency.keys_get h.bounded hheld
    have hcapacity := Recency.capacity_get runner.resolutions file.components
    rw [hget] at hkeys hcapacity
    rw [libraryPath_of_held hget]
    exact ⟨hcapacity.trans h.capacity, hkeys.trans htouch⟩

/-- One run to be made. -/
structure Job where
  file : Path
  text : Option String
  config : RunConfiguration

/-- The file that a run uses.  A skipped run uses none. -/
def Job.use? (job : Job) : Option (List Path.Component) :=
  if job.config.skips job.file then none else some job.file.components

/-- The runner and the outside after a run. -/
def perform (job : Job) (state : Runner lib × σ) : Runner lib × σ :=
  let answered := run tools job.file job.text job.config state.1 state.2
  (answered.1.2, answered.2)

/-- A run makes its file the most recent one, and a skipped run changes
nothing. -/
theorem remembers_perform (job : Job) {state : Runner lib × σ}
    {uses : List (List Path.Component)} (h : state.1.Remembers uses) :
    Remembers (perform tools job state).1 (uses ++ job.use?.toList) := by
  unfold perform Job.use?
  rw [run_eq]
  split
  · rw [Option.toList_none, List.append_nil]
    exact h
  · have hsearch := remembers_libraryPath tools h job.file job.config state.2
    have hkept := finish_keeps tools job.file job.text job.config
      (libraryPath tools job.file job.config state.1 state.2).1.1
      (libraryPath tools job.file job.config state.1 state.2).1.2
      (libraryPath tools job.file job.config state.1 state.2).2
    exact ⟨(congrArg Recency.capacity hkept).trans hsearch.capacity,
      (congrArg Recency.keys hkept).trans hsearch.keys⟩

/-! ## Many runs -/

/-- The runner and the outside after runs. -/
def runAll (jobs : List Job) (state : Runner lib × σ) : Runner lib × σ :=
  jobs.foldl (fun state job => perform tools job state) state

/-- The files of the runs that were not skipped, the latest last. -/
def usesOf (jobs : List Job) : List (List Path.Component) :=
  jobs.filterMap Job.use?

theorem runAll_concat (jobs : List Job) (job : Job) (state : Runner lib × σ) :
    runAll tools (jobs ++ [job]) state = perform tools job (runAll tools jobs state) :=
  List.foldl_concat _ _ _ _

theorem usesOf_concat (jobs : List Job) (job : Job) :
    usesOf (jobs ++ [job]) = usesOf jobs ++ job.use?.toList := by
  rw [usesOf, List.filterMap_append, usesOf]
  cases h : job.use? <;> simp [h]

/-- After any runs a new runner remembers the files that were run last. -/
theorem remembers_runAll (jobs : List Job) (outside : σ) :
    Remembers (runAll tools jobs (empty, outside)).1 (usesOf jobs) := by
  induction jobs using List.reverseRecOn with
  | nil => exact remembers_empty
  | append_singleton jobs job ih =>
    rw [runAll_concat, usesOf_concat]
    exact remembers_perform tools job ih

end LintLayer.Runner
