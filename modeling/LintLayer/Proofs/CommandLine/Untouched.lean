import LintLayer.CommandLine.Run
import LintLayer.Proofs.Layer.Run

/-!
# Actions that leave the files alone

Linting reads files and starts processes.  It writes nothing: the host that
reads from the disk, the toolchain of a machine, and so every request for the
diagnostics of a file leave the disk and the working directory as they are.
-/

namespace LintLayer

/-- The disk of a machine and the place that it is seen from. -/
def Machine.files (machine : Machine) : Disk × Place :=
  (machine.disk, machine.directory)

/-- The action leaves the files alone. -/
def LeavesFiles {α : Type} (action : StateM Machine α) : Prop :=
  ∀ machine, (action machine).2.files = machine.files

/-- The action leaves the files alone, whatever else is held. -/
def KeepsFiles {ρ α : Type} (action : StateT ρ (StateM Machine) α) : Prop :=
  ∀ held, LeavesFiles (action held)

section Rules

variable {ρ α β : Type}

theorem leaves_pure (answer : α) : LeavesFiles (pure answer) :=
  fun _ => rfl

theorem leaves_bind {first : StateM Machine α} {next : α → StateM Machine β}
    (hfirst : LeavesFiles first) (hnext : ∀ answer, LeavesFiles (next answer)) :
    LeavesFiles (first >>= next) := by
  intro machine
  exact (hnext _ _).trans (hfirst machine)

theorem leaves_get : LeavesFiles get :=
  fun _ => rfl

/-- An action that looks at the machine first. -/
theorem leaves_get_bind {next : Machine → StateM Machine α}
    (h : ∀ machine, (next machine machine).2.files = machine.files) :
    LeavesFiles (get >>= next) :=
  h

theorem keeps_files_pure (answer : α) :
    KeepsFiles (pure answer : StateT ρ (StateM Machine) α) :=
  fun _ _ => rfl

theorem keeps_files_bind {first : StateT ρ (StateM Machine) α}
    {next : α → StateT ρ (StateM Machine) β} (hfirst : KeepsFiles first)
    (hnext : ∀ answer, KeepsFiles (next answer)) : KeepsFiles (first >>= next) :=
  fun held => leaves_bind (hfirst held) fun answer => hnext answer.1 answer.2

theorem keeps_files_lift {action : StateM Machine α} (h : LeavesFiles action) :
    KeepsFiles (liftM action : StateT ρ (StateM Machine) α) :=
  fun _ machine => h machine

theorem keeps_files_get : KeepsFiles (get : StateT ρ (StateM Machine) ρ) :=
  fun _ _ => rfl

theorem keeps_files_set (held : ρ) : KeepsFiles (set held : StateT ρ (StateM Machine) PUnit) :=
  fun _ _ => rfl

theorem keeps_files_modify (change : ρ → ρ) :
    KeepsFiles (modify change : StateT ρ (StateM Machine) PUnit) :=
  fun _ _ => rfl

end Rules

/-! ## Processes -/

theorem Machine.run_leaves (command : Command) : LeavesFiles (Machine.run command) := by
  refine leaves_get_bind fun machine => ?_
  extract_lets join answer
  -- how the program is looked for does not matter
  generalize ite (command.holdsNul = true) _ _ = found
  rcases found with fault | ⟨place, name⟩
  · rfl
  · cases answer.hangs with
    | false => rfl
    | true =>
      cases command.deadline with
      | none => rfl
      | some milliseconds => rfl

namespace Analyzer

theorem captureLine_leaves (command : Command) : LeavesFiles (captureLine command) := by
  refine leaves_bind (Machine.run_leaves command) fun captured => ?_
  cases captured with
  | ok captured => exact leaves_pure _
  | error error => exact leaves_pure _

theorem resolve_leaves (deadline : Nat) (package : String) (nodePath : Option Path)
    (directory : Path) : LeavesFiles (resolve deadline package nodePath directory) := by
  refine leaves_bind leaves_get fun machine => ?_
  split
  · exact leaves_pure none
  · exact leaves_bind (captureLine_leaves _) fun line => leaves_pure _

theorem globalRoot_leaves (deadline : Nat) (manager : PackageManager) :
    LeavesFiles (globalRoot deadline manager) := by
  refine leaves_bind leaves_get fun machine => ?_
  split
  · exact leaves_pure none
  · exact leaves_bind (captureLine_leaves _) fun line => leaves_pure _

theorem Library.lint_leaves (library : Library) (request : Request) :
    LeavesFiles (library.lint request) := by
  refine leaves_bind (Machine.run_leaves _) fun captured => ?_
  cases captured with
  | ok captured => exact leaves_pure _
  | error error => exact leaves_pure _

end Analyzer

/-! ## Runs of the analyzer -/

/-- No function of the toolchain touches the files. -/
structure Toolchain.LeavesFiles {lib : Type} (tools : Toolchain Machine lib) : Prop where
  resolve : ∀ package nodePath directory,
    LintLayer.LeavesFiles (tools.resolve package nodePath directory)
  globalRoot : ∀ manager, LintLayer.LeavesFiles (tools.globalRoot manager)
  load : ∀ path, LintLayer.LeavesFiles (tools.load path)
  lint : ∀ library request, LintLayer.LeavesFiles (tools.lint library request)
  pathExists : ∀ path, LintLayer.LeavesFiles (tools.pathExists path)

theorem Analyzer.toolchain_leaves (node : Option Path) : (toolchain node).LeavesFiles where
  resolve := resolve_leaves resolveDeadline
  globalRoot := globalRoot_leaves resolveDeadline
  load _ _ := rfl
  lint := Library.lint_leaves
  pathExists _ _ := rfl

namespace Runner

variable {lib : Type} {tools : Toolchain Machine lib} (h : tools.LeavesFiles)

include h

theorem globalRoot_keeps_files (manager : PackageManager) :
    KeepsFiles (globalRoot tools manager) := by
  refine keeps_files_bind keeps_files_get fun runner => ?_
  split
  · exact keeps_files_pure _
  · refine keeps_files_bind (keeps_files_lift (h.globalRoot manager)) fun root => ?_
    exact keeps_files_bind (keeps_files_modify _) fun _ => keeps_files_pure root

theorem searchOverride_leaves (config : RunConfiguration) :
    LeavesFiles (searchOverride tools config) := by
  unfold searchOverride
  split
  · exact leaves_pure _
  · refine leaves_bind (h.pathExists _) fun found => ?_
    split
    · exact leaves_pure _
    · exact leaves_pure _

theorem resolveLibrary_keeps_files (file : Path) (config : RunConfiguration) :
    KeepsFiles (resolveLibrary tools file config) := by
  refine keeps_files_bind (keeps_files_lift (searchOverride_leaves h config)) fun searched => ?_
  refine keeps_files_bind (keeps_files_lift (h.resolve _ _ _)) fun found => ?_
  cases found with
  | some library => exact keeps_files_pure _
  | none =>
    refine keeps_files_bind (globalRoot_keeps_files h config.packageManager) fun root => ?_
    cases root with
    | none => exact keeps_files_pure _
    | some root =>
      exact keeps_files_bind (keeps_files_lift (h.resolve _ _ _)) fun library =>
        keeps_files_pure _

theorem libraryPath_keeps_files (file : Path) (config : RunConfiguration) :
    KeepsFiles (libraryPath tools file config) := by
  refine keeps_files_bind keeps_files_get fun runner => ?_
  refine keeps_files_bind (keeps_files_set _) fun _ => ?_
  split
  · exact keeps_files_pure _
  · refine keeps_files_bind (resolveLibrary_keeps_files h file config) fun searched => ?_
    exact keeps_files_bind (keeps_files_modify _) fun _ => keeps_files_pure _

theorem loadLibrary_keeps_files (path : Path) : KeepsFiles (loadLibrary tools path) := by
  refine keeps_files_bind keeps_files_get fun runner => ?_
  split
  · exact keeps_files_pure _
  · refine keeps_files_bind (keeps_files_lift (h.load path)) fun loaded => ?_
    exact keeps_files_bind (keeps_files_modify _) fun _ => keeps_files_pure loaded

theorem run_keeps_files (file : Path) (text : Option String) (config : RunConfiguration) :
    KeepsFiles (run tools file text config) := by
  unfold run
  split
  · exact keeps_files_pure _
  refine keeps_files_bind (libraryPath_keeps_files h file config) fun searched => ?_
  obtain ⟨_ | path, warnings⟩ := searched
  · exact keeps_files_pure _
  refine keeps_files_bind (loadLibrary_keeps_files h path) fun loaded => ?_
  cases loaded with
  | error error => exact keeps_files_pure _
  | ok library =>
    refine keeps_files_bind (keeps_files_lift (h.lint library _)) fun outcome => ?_
    cases outcome with
    | error error => exact keeps_files_pure _
    | ok outcome => exact keeps_files_pure _

end Runner

theorem runAnalyzer_keeps_files {lib : Type} {tools : Toolchain Machine lib}
    (h : tools.LeavesFiles) (file : Path) (text : String) (root : Option Path) :
    KeepsFiles (Layer.runAnalyzer tools file text root) := by
  intro layer
  exact leaves_bind (Runner.run_keeps_files h file _ _ layer.runner) fun _ => leaves_pure _

/-! ## Requests -/

namespace CommandLine

variable {lib : Type} (workspace : Path)

/-- Looking for a file changes nothing. -/
theorem findM?_isFile (candidates : List Path) (machine : Machine) :
    candidates.findM? (diskHost workspace).isFile machine =
      (candidates.find? machine.isFile, machine) := by
  induction candidates with
  | nil => rfl
  | cons candidate candidates ih =>
    rw [List.findM?, List.find?_cons]
    simp only [bind, StateT.bind, diskHost]
    cases machine.isFile candidate with
    | true => rfl
    | false => exact ih

/-- A new layer leaves the machine as it is. -/
theorem create_eq (options : Options) (machine : Machine) :
    (Layer.create (diskHost workspace) options machine : Layer lib × Machine) =
      ({ options, runner := .empty, problems := .empty }, machine) := by
  have hwatch : Layer.watchConfig (diskHost workspace) options machine = ((), machine) := by
    have hroot : (diskHost workspace).workspaceRoot machine = (some workspace, machine) := rfl
    simp only [Layer.watchConfig, bind, StateT.bind, hroot]
    cases options.configFileFrom workspace with
    | some config => rfl
    | none =>
      simp only [StateT.bind, Options.findConfig, findM?_isFile, bind]
      cases (options.configCandidates workspace).find? machine.isFile with
      | some config => rfl
      | none => rfl
  simp only [Layer.create, bind, StateT.bind, hwatch]
  rfl

theorem warningDiagnostics_leaves (options : Options) (file : Path) (root : Option Path)
    (warnings : List String) :
    LeavesFiles (Layer.warningDiagnostics (diskHost workspace) options file root warnings) := by
  unfold Layer.warningDiagnostics
  split
  · exact leaves_pure []
  · have hfind : LeavesFiles (options.findConfig (diskHost workspace).isFile
        (Layer.configBase file root)) := by
      intro machine
      rw [Options.findConfig, findM?_isFile]
    refine leaves_bind hfind fun found => ?_
    cases found with
    | some config => exact leaves_pure _
    | none => exact leaves_pure _

variable {tools : Toolchain Machine lib} (h : tools.LeavesFiles)

include h

theorem pass_keeps_files (path : Path) :
    KeepsFiles (Layer.pass (diskHost workspace) tools path) := by
  refine keeps_files_bind (keeps_files_lift fun _ => rfl) fun text => ?_
  cases text with
  | none => exact keeps_files_pure _
  | some text =>
    refine keeps_files_bind (keeps_files_lift fun _ => rfl) fun root => ?_
    refine keeps_files_bind (runAnalyzer_keeps_files h path text root) fun outcome => ?_
    cases outcome with
    | error error => exact keeps_files_pure _
    | ok result =>
      refine keeps_files_bind keeps_files_get fun layer => ?_
      refine keeps_files_bind (keeps_files_lift (warningDiagnostics_leaves workspace _ _ _ _))
        fun warnings => ?_
      exact keeps_files_bind (keeps_files_modify _) fun _ => keeps_files_pure _

/-- A request for the diagnostics of a file leaves the files alone. -/
theorem semantic_keeps_files (path : Path) :
    KeepsFiles (Layer.semantic (diskHost workspace) tools path) := by
  refine keeps_files_bind (keeps_files_lift fun _ => rfl) fun own => ?_
  refine keeps_files_bind keeps_files_get fun layer => ?_
  extract_lets options
  split
  · exact keeps_files_pure _
  refine keeps_files_bind (keeps_files_modify _) fun _ => ?_
  split
  · exact keeps_files_pure _
  refine keeps_files_bind (pass_keeps_files workspace h path) fun outcome => ?_
  cases outcome with
  | error error => exact keeps_files_pure _
  | ok added => exact keeps_files_pure _

end CommandLine

end LintLayer
