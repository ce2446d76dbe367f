import LintLayer.Proofs.Path.Directory
import LintLayer.Proofs.Path.Map
import LintLayer.Proofs.Recency.Keys

/-!
# The memory of the runner

A run remembers what it found, so the next run of the same file asks less.
Here is what that changes for the result: nothing but the warnings, as long
as the outside always gives the same answers.

`Oracle` is an outside that answers without state, and `AnswersAs` ties a
toolchain to it.  `Oracle.answer` says what a run gives for the warnings that
the search for the analyzer had, and `Oracle.result` leaves all warnings out.
`Agrees` is the invariant of the memory: everything in it is the oracle's
answer.  `Returns` says that an action keeps the invariant and what it answers
in a memory that has it; the rules for `Returns` follow the way actions are
written.  `finish_returns` is the result for what comes after the search, and
`run_returns` the one for a whole run.
-/

namespace LintLayer

/-! ## An outside without state -/

/-- The answers of an outside that never changes its mind.  Spellings of one
path get one answer. -/
structure Oracle (lib : Type) where
  resolve : String → Option (List Path.Component) → List Path.Component → Option Path
  globalRoot : PackageManager → Option Path
  load : List Path.Component → Except LoadError lib
  lint : lib → Request → Except LintError Outcome
  pathExists : Path → Bool

variable {σ lib : Type}

/-- The toolchain gives the answers of the oracle, whatever the state of the
outside is. -/
structure Toolchain.AnswersAs (tools : Toolchain σ lib) (oracle : Oracle lib) : Prop where
  resolve : ∀ package nodePath directory outside,
    (tools.resolve package nodePath directory outside).1 =
      oracle.resolve package (nodePath.map Path.components) directory.components
  globalRoot : ∀ manager outside, (tools.globalRoot manager outside).1 = oracle.globalRoot manager
  load : ∀ path outside, (tools.load path outside).1 = oracle.load path.components
  lint : ∀ library request outside,
    (tools.lint library request outside).1 = oracle.lint library request
  pathExists : ∀ path outside, (tools.pathExists path outside).1 = oracle.pathExists path

/-- The components of the directory of a file with the given components. -/
def Path.directoryOf (file : List Path.Component) : List Path.Component :=
  if file.dropLast = [] then [.here] else file.dropLast

namespace Oracle

variable (oracle : Oracle lib)

/-- The directory that is searched in place of the file's own. -/
def searchOverride (nodePath : Option Path) : Option Path :=
  nodePath.filter oracle.pathExists

/-- The warnings of the search for the analyzer. -/
def notices (nodePath : Option Path) : List String :=
  match nodePath with
  | none => []
  | some path => if oracle.pathExists path then [] else [ignoredNodePathMessage path]

/-- Where the analyzer of a file is. -/
def libraryPath (nodePath : Option Path) (manager : PackageManager)
    (file : List Path.Component) : Option Path :=
  let override := (oracle.searchOverride nodePath).map Path.components
  match oracle.resolve analyzerPackage override (override.getD (Path.directoryOf file)) with
  | some library => some library
  | none =>
    (oracle.globalRoot manager).bind fun root =>
      oracle.resolve analyzerPackage (some root.components) (Path.directoryOf file)

/-- The result of a run in which the search for the analyzer gave the
warnings `noticed`. -/
def answer (noticed : List String) (file : Path) (text : Option String)
    (config : RunConfiguration) : Except LintError RunResult :=
  if config.skips file then .ok (config.result {} [])
  else match oracle.libraryPath config.nodePath config.packageManager file.components with
    | none => .ok (config.result {} (noticed ++ [installMessage file config.packageManager]))
    | some path =>
      match oracle.load path.components with
      | .error _ => .ok (config.result {} noticed)
      | .ok library =>
        (oracle.lint library (config.request file text)).map fun outcome =>
          config.result outcome.report (noticed ++ outcome.warnings)

/-- The result of a run, its warnings left out. -/
def result (file : Path) (text : Option String) (config : RunConfiguration) :
    Except LintError RunResult :=
  if config.skips file then .ok (config.result {} [])
  else match oracle.libraryPath config.nodePath config.packageManager file.components with
    | none => .ok (config.result {} [])
    | some path =>
      match oracle.load path.components with
      | .error _ => .ok (config.result {} [])
      | .ok library =>
        (oracle.lint library (config.request file text)).map fun outcome =>
          config.result outcome.report []

end Oracle

/-- A result without its warnings. -/
def RunResult.silent (result : RunResult) : RunResult :=
  { result with warnings := [] }

theorem Oracle.silent_answer (oracle : Oracle lib) (noticed : List String) (file : Path)
    (text : Option String) (config : RunConfiguration) :
    (oracle.answer noticed file text config).map RunResult.silent =
      oracle.result file text config := by
  unfold answer result
  split
  · rfl
  split
  · rfl
  split
  · rfl
  rename_i library _
  cases oracle.lint library (config.request file text) <;> rfl

namespace Runner

/-! ## The invariant -/

/-- Everything that is remembered is an answer of the oracle, under the
settings that say where to look. -/
structure Agrees (oracle : Oracle lib) (nodePath : Option Path) (manager : PackageManager)
    (runner : Runner lib) : Prop where
  capacity : runner.resolutions.capacity = resolutionCapacity
  resolutions : ∀ file found, (file, found) ∈ runner.resolutions.entries →
    found = oracle.libraryPath nodePath manager file
  libraries : ∀ path loaded, runner.libraries.get? path = some loaded →
    loaded = oracle.load path.components
  globalRoots : ∀ manager root, runner.globalRoots.lookup manager = some root →
    root = oracle.globalRoot manager

variable {oracle : Oracle lib} {nodePath : Option Path} {manager : PackageManager}

theorem agrees_empty : Agrees oracle nodePath manager (empty : Runner lib) :=
  ⟨rfl, by simp [empty, Recency.empty], by simp [empty], by simp [empty]⟩

section Agrees

variable {runner : Runner lib}

/-- Reading a resolution keeps the memory in agreement. -/
theorem Agrees.read (h : Agrees oracle nodePath manager runner) (file : List Path.Component) :
    Agrees oracle nodePath manager
      { runner with resolutions := (runner.resolutions.get file).2 } where
  capacity := (Recency.capacity_get _ _).trans h.capacity
  resolutions other found hmem := h.resolutions other found (Recency.mem_of_mem_get hmem)
  libraries := h.libraries
  globalRoots := h.globalRoots

/-- Remembering where the analyzer of a file is. -/
theorem Agrees.resolve (h : Agrees oracle nodePath manager runner) (file : List Path.Component) :
    Agrees oracle nodePath manager
      { runner with
        resolutions :=
          (runner.resolutions.insert file (oracle.libraryPath nodePath manager file)).2 } where
  capacity := (Recency.capacity_insert _ _ _).trans h.capacity
  resolutions other found hmem := by
    rcases Recency.eq_or_mem_of_mem_insert hmem with heq | hheld
    · rw [Prod.mk.injEq] at heq
      rw [heq.1, heq.2]
    · exact h.resolutions other found hheld
  libraries := h.libraries
  globalRoots := h.globalRoots

/-- Remembering what was loaded. -/
theorem Agrees.load (h : Agrees oracle nodePath manager runner) (path : Path) :
    Agrees oracle nodePath manager
      { runner with
        libraries := runner.libraries.insert path (oracle.load path.components) } where
  capacity := h.capacity
  resolutions := h.resolutions
  libraries other loaded hget := by
    rw [Path.Map.get?_insert] at hget
    split at hget
    · rename_i hsame
      rw [← Option.some.inj hget, hsame]
    · exact h.libraries other loaded hget
  globalRoots := h.globalRoots

/-- Remembering the directory of a package manager. -/
theorem Agrees.askGlobal (h : Agrees oracle nodePath manager runner) (asked : PackageManager) :
    Agrees oracle nodePath manager
      { runner with globalRoots := (asked, oracle.globalRoot asked) :: runner.globalRoots } where
  capacity := h.capacity
  resolutions := h.resolutions
  libraries := h.libraries
  globalRoots other root hlookup := by
    rw [List.lookup_cons] at hlookup
    split at hlookup
    · rename_i hsame
      rw [← Option.some.inj hlookup, eq_of_beq hsame]
    · exact h.globalRoots other root hlookup

/-- A runner that forgets everything is a new one. -/
theorem Agrees.clear (h : Agrees oracle nodePath manager runner) : runner.clear = empty := by
  rw [Runner.clear, Recency.clear, h.capacity]
  rfl

end Agrees

/-! ## Actions that keep it -/

/-- In a memory that agrees with the oracle the action gives an answer with
a property, and the memory still agrees after it. -/
def Returns {α : Type} (oracle : Oracle lib) (nodePath : Option Path) (manager : PackageManager)
    (action : Action σ lib α) (holds : α → Prop) : Prop :=
  ∀ runner outside, Agrees oracle nodePath manager runner →
    holds (action runner outside).1.1 ∧
      Agrees oracle nodePath manager (action runner outside).1.2

section Rules

variable {α β : Type} {holds : α → Prop}

theorem returns_pure {answer : α} (h : holds answer) :
    Returns oracle nodePath manager (pure answer : Action σ lib α) holds :=
  fun _ _ hrunner => ⟨h, hrunner⟩

theorem returns_bind {holds' : β → Prop} {first : Action σ lib α} {next : α → Action σ lib β}
    (hfirst : Returns oracle nodePath manager first holds)
    (hnext : ∀ answer, holds answer → Returns oracle nodePath manager (next answer) holds') :
    Returns oracle nodePath manager (first >>= next) holds' := by
  intro runner outside hrunner
  obtain ⟨hanswer, hagrees⟩ := hfirst runner outside hrunner
  exact hnext _ hanswer _ _ hagrees

theorem returns_weaken {holds' : α → Prop} {action : Action σ lib α}
    (h : Returns oracle nodePath manager action holds)
    (hweaken : ∀ answer, holds answer → holds' answer) :
    Returns oracle nodePath manager action holds' := by
  intro runner outside hrunner
  obtain ⟨hanswer, hagrees⟩ := h runner outside hrunner
  exact ⟨hweaken _ hanswer, hagrees⟩

/-- An action on the outside leaves the memory as it is. -/
theorem returns_known {action : StateM σ α} {answer : α}
    (h : ∀ outside, (action outside).1 = answer) :
    Returns oracle nodePath manager (liftM action : Action σ lib α) (· = answer) :=
  fun _ outside hrunner => ⟨h outside, hrunner⟩

theorem returns_get :
    Returns oracle nodePath manager (get : Action σ lib (Runner lib))
      (Agrees oracle nodePath manager) :=
  fun _ _ hrunner => ⟨hrunner, hrunner⟩

theorem returns_set {runner : Runner lib} (h : Agrees oracle nodePath manager runner) :
    Returns oracle nodePath manager (set runner : Action σ lib PUnit) fun _ => True :=
  fun _ _ _ => ⟨trivial, h⟩

theorem returns_modify {change : Runner lib → Runner lib}
    (h : ∀ runner, Agrees oracle nodePath manager runner →
      Agrees oracle nodePath manager (change runner)) :
    Returns oracle nodePath manager (modify change : Action σ lib PUnit) fun _ => True :=
  fun runner _ hrunner => ⟨trivial, h runner hrunner⟩

end Rules

/-! ## The steps of a run -/

variable {tools : Toolchain σ lib} (htools : tools.AnswersAs oracle)

include htools

theorem globalRoot_returns (asked : PackageManager) :
    Returns oracle nodePath manager (globalRoot tools asked) (· = oracle.globalRoot asked) := by
  refine returns_bind returns_get ?_
  intro runner hrunner
  split
  · rename_i root hlookup
    exact returns_pure (hrunner.globalRoots asked root hlookup)
  · refine returns_bind (returns_known (htools.globalRoot asked)) ?_
    rintro root rfl
    refine returns_bind (returns_modify fun _ h => h.askGlobal asked) ?_
    exact fun _ _ => returns_pure rfl

theorem fst_searchOverride (config : RunConfiguration) (outside : σ) :
    (searchOverride tools config outside).1 =
      (oracle.searchOverride config.nodePath, oracle.notices config.nodePath) := by
  cases hpath : config.nodePath with
  | none =>
    rw [searchOverride, hpath]
    rfl
  | some path =>
    have hexists := htools.pathExists path outside
    rcases hask : tools.pathExists path outside with ⟨found, after⟩
    rw [hask] at hexists
    simp only at hexists
    simp only [searchOverride, hpath, bind, StateT.bind, hask, Oracle.searchOverride,
      Oracle.notices, Option.filter, ← hexists]
    cases found <;> rfl

/-- Looking for the analyzer of a file finds what the oracle says, with its
warnings. -/
theorem resolveLibrary_returns (file : Path) (config : RunConfiguration) :
    Returns oracle nodePath manager (resolveLibrary tools file config)
      (· = (oracle.libraryPath config.nodePath config.packageManager file.components,
        oracle.notices config.nodePath)) := by
  have hdirectory : file.directory.components = Path.directoryOf file.components :=
    Path.components_directory file
  refine returns_bind (returns_known (fst_searchOverride htools config)) ?_
  rintro _ rfl
  refine returns_bind (returns_known (htools.resolve _ _ _)) ?_
  rintro found hfound
  have hbase : ((oracle.searchOverride config.nodePath).getD file.directory).components =
      ((oracle.searchOverride config.nodePath).map Path.components).getD
        (Path.directoryOf file.components) := by
    cases oracle.searchOverride config.nodePath with
    | none => exact hdirectory
    | some override => rfl
  rw [hbase] at hfound
  cases found with
  | some library =>
    refine returns_pure ?_
    simp only [Oracle.libraryPath, ← hfound]
  | none =>
    refine returns_bind (globalRoot_returns htools config.packageManager) ?_
    rintro root hroot
    cases root with
    | none =>
      refine returns_pure ?_
      simp only [Oracle.libraryPath, ← hfound, ← hroot, Option.bind_none]
    | some root =>
      refine returns_bind (returns_known (htools.resolve _ _ _)) ?_
      rintro library rfl
      refine returns_pure ?_
      simp only [Oracle.libraryPath, ← hfound, ← hroot, Option.bind_some, Option.map_some,
        hdirectory]

/-- What is remembered about a file is what would be found. -/
theorem libraryPath_returns (file : Path) (config : RunConfiguration) :
    Returns oracle config.nodePath config.packageManager (libraryPath tools file config)
      (·.1 = oracle.libraryPath config.nodePath config.packageManager file.components) := by
  refine returns_bind returns_get ?_
  intro runner hrunner
  refine returns_bind (returns_set (hrunner.read file.components)) ?_
  intro _ _
  split
  · rename_i found hheld
    exact returns_pure (hrunner.resolutions _ _ (Recency.mem_of_get_eq_some hheld))
  · refine returns_bind (resolveLibrary_returns htools file config) ?_
    rintro _ rfl
    refine returns_bind (returns_modify fun _ h => h.resolve file.components) ?_
    exact fun _ _ => returns_pure rfl

theorem loadLibrary_returns (path : Path) :
    Returns oracle nodePath manager (loadLibrary tools path) (· = oracle.load path.components) := by
  refine returns_bind returns_get ?_
  intro runner hrunner
  split
  · rename_i loaded hget
    exact returns_pure (hrunner.libraries path loaded hget)
  · refine returns_bind (returns_known (htools.load path)) ?_
    rintro loaded rfl
    refine returns_bind (returns_modify fun _ h => h.load path) ?_
    exact fun _ _ => returns_pure rfl

/-- What comes after the search: the analyzer that was found is loaded and
called. -/
def finish (tools : Toolchain σ lib) (file : Path) (text : Option String)
    (config : RunConfiguration) (searched : Option Path × List String) :
    Action σ lib (Except LintError RunResult) :=
  match searched.1 with
  | none =>
    return .ok (config.result {} (searched.2 ++ [installMessage file config.packageManager]))
  | some path => do
    match ← loadLibrary tools path with
    | .error _ => return .ok (config.result {} searched.2)
    | .ok library =>
      match ← tools.lint library (config.request file text) with
      | .error error => return .error error
      | .ok outcome => return .ok (config.result outcome.report (searched.2 ++ outcome.warnings))

omit htools in
/-- A run of a file that is not skipped is a search and what comes after
it. -/
theorem run_eq (file : Path) (text : Option String) (config : RunConfiguration) :
    run tools file text config =
      if config.skips file then pure (.ok (config.result {} []))
      else libraryPath tools file config >>= finish tools file text config :=
  rfl

/-- What comes after a search that found the analyzer. -/
theorem finish_returns {file : Path} {text : Option String} {config : RunConfiguration}
    (hskips : ¬ config.skips file = true) {searched : Option Path × List String}
    (hfound : searched.1 =
      oracle.libraryPath config.nodePath config.packageManager file.components) :
    Returns oracle nodePath manager (finish tools file text config searched)
      (· = oracle.answer searched.2 file text config) := by
  rw [Oracle.answer, if_neg hskips, ← hfound]
  unfold finish
  cases searched.1 with
  | none => exact returns_pure rfl
  | some path =>
    refine returns_bind (loadLibrary_returns htools path) ?_
    rintro loaded hloaded
    simp only [← hloaded]
    cases loaded with
    | error error => exact returns_pure rfl
    | ok library =>
      refine returns_bind (returns_known (htools.lint library (config.request file text))) ?_
      rintro outcome houtcome
      simp only [← houtcome]
      cases outcome with
      | error error => exact returns_pure rfl
      | ok outcome => exact returns_pure rfl

/-- A run gives the result of the oracle, up to its warnings, whatever is
remembered. -/
theorem run_returns (file : Path) (text : Option String) (config : RunConfiguration) :
    Returns oracle config.nodePath config.packageManager (run tools file text config)
      (·.map RunResult.silent = oracle.result file text config) := by
  rw [run_eq]
  split
  · rename_i hskips
    refine returns_pure ?_
    rw [Oracle.result, if_pos hskips]
    rfl
  · rename_i hskips
    refine returns_bind (libraryPath_returns htools file config) ?_
    intro searched hfound
    refine returns_weaken (finish_returns htools hskips hfound) ?_
    rintro _ rfl
    exact oracle.silent_answer searched.2 file text config

end Runner

end LintLayer
