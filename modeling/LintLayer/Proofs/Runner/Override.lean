import LintLayer.Proofs.Runner.Recent

/-!
# A directory that is searched in vain

A directory can be set in which the analyzer is searched before the file's own.
When it exists and the analyzer is not found there, the search goes on among the
modules installed for all projects, as seen from the file.  Here the outside may
change its mind with every call, so the answers are taken in the order in which
they are asked for.

* `libraryPath_of_useless` gives the answer of a search of this kind.
* `useless_override_needs_root` compares it with what the file's own directory
  has to offer: the search finds an analyzer exactly if the package manager names
  a directory.
* `useless_override_loses_install` is a search that finds nothing, although the
  analyzer is installed beside the file.
-/

namespace LintLayer.Runner

variable {σ lib : Type}

/-- A further directory to search takes nothing away: a search that finds the
analyzer without it finds one with it. -/
def SearchGrows (tools : Toolchain σ lib) : Prop :=
  ∀ further directory outside,
    (tools.resolve analyzerPackage none directory outside).1.isSome = true →
      (tools.resolve analyzerPackage (some further) directory outside).1.isSome = true

/-- The answers of the outside, one after the other, in a search with a directory
that is set: the directory exists, the analyzer is not found there, and the package
manager names a directory of its own, or none. -/
structure UselessOverride (tools : Toolchain σ lib) (config : RunConfiguration) (outside : σ) where
  nodePath : Path
  root : Option Path
  {seen searched asked : σ}
  set : config.nodePath = some nodePath
  present : tools.pathExists nodePath outside = (true, seen)
  nothing : tools.resolve analyzerPackage (some nodePath) nodePath seen = (none, searched)
  named : tools.globalRoot config.packageManager searched = (root, asked)

/-! ## The search -/

section Rules

variable {α β : Type} {runner after : Runner lib} {outside later : σ} {answer : α}

theorem bind_of_apply {first : Action σ lib α} (h : first runner outside = ((answer, after), later))
    (next : α → Action σ lib β) : (first >>= next) runner outside = next answer after later := by
  simp only [bind, StateT.bind, h]

theorem liftM_of_apply {action : StateM σ α} (h : action outside = (answer, later))
    (runner : Runner lib) :
    (liftM action : Action σ lib α) runner outside = ((answer, runner), later) := by
  simp only [liftM, monadLift, MonadLift.monadLift, StateT.lift, bind, StateT.bind, h]
  rfl

end Rules

section Search

variable {tools : Toolchain σ lib} {config : RunConfiguration} {outside : σ}
  (useless : UselessOverride tools config outside)

theorem searchOverride_of_useless :
    searchOverride tools config outside = ((some useless.nodePath, []), useless.seen) := by
  simp only [searchOverride, useless.set, bind, StateT.bind, useless.present]
  rfl

/-- A new runner asks the package manager. -/
theorem globalRoot_of_useless :
    ∃ runner : Runner lib, globalRoot tools config.packageManager empty useless.searched =
      ((useless.root, runner), useless.asked) := by
  have hnew : (empty : Runner lib).globalRoots.lookup config.packageManager = none := rfl
  refine ⟨{ empty with globalRoots := [(config.packageManager, useless.root)] }, ?_⟩
  unfold globalRoot
  rw [bind_of_apply (rfl : (get : Action σ lib _) empty _ = ((empty, empty), _)), hnew]
  dsimp only
  rw [bind_of_apply (liftM_of_apply useless.named empty)]
  rfl

/-- After the search in vain only a directory that the package manager names is
searched, as seen from the file. -/
theorem resolveLibrary_of_useless (file : Path) :
    (resolveLibrary tools file config empty outside).1.1 =
      (useless.root.bind fun root =>
        (tools.resolve analyzerPackage (some root) file.directory useless.asked).1, []) := by
  obtain ⟨runner, hroot⟩ := globalRoot_of_useless useless
  unfold resolveLibrary
  rw [bind_of_apply (liftM_of_apply (searchOverride_of_useless useless) empty)]
  dsimp only
  rw [Option.getD_some, bind_of_apply (liftM_of_apply useless.nothing empty)]
  dsimp only
  rw [bind_of_apply hroot]
  cases useless.root with
  | none => rfl
  | some root => rfl

theorem libraryPath_of_useless (file : Path) :
    (libraryPath tools file config empty outside).1.1 =
      (useless.root.bind fun root =>
        (tools.resolve analyzerPackage (some root) file.directory useless.asked).1, []) := by
  have hget : (empty : Runner lib).resolutions.get file.components =
      (none, (empty : Runner lib).resolutions) := rfl
  rw [libraryPath_of_new hget]
  exact resolveLibrary_of_useless useless file

/-- The directory of the package manager is searched as well as the file's own, so
what is found from the file's own is not lost. -/
theorem exists_found_of_grows (hgrows : SearchGrows tools) {file : Path}
    (hown : (tools.resolve analyzerPackage none file.directory useless.asked).1.isSome = true)
    (root : Path) :
    ∃ path, (tools.resolve analyzerPackage (some root) file.directory useless.asked).1 =
      some path :=
  Option.isSome_iff_exists.mp (hgrows root file.directory useless.asked hown)

end Search

/-! ## The run -/

/-- The run of a file that is not skipped goes on with what the search found. -/
theorem run_of_not_skips {tools : Toolchain σ lib} {config : RunConfiguration} {file : Path}
    (hskips : config.skips file = false) (text : Option String) (runner : Runner lib)
    (outside : σ) :
    run tools file text config runner outside =
      let search := libraryPath tools file config runner outside
      finish tools file text config search.1.1 search.1.2 search.2 := by
  rw [run_eq, if_neg (by simp [hskips])]
  exact bind_of_apply rfl _

/-- A runner that remembers nothing searches a directory in vain, and the analyzer
would be found from the file's own directory.  The search finds an analyzer exactly
if the package manager names a directory.  If it names none, the run of a file that
is not skipped ends with the advice to install the analyzer; if it names one, the
run goes on with what is found there as seen from the file. -/
theorem useless_override_needs_root {tools : Toolchain σ lib} (hgrows : SearchGrows tools)
    {config : RunConfiguration} {outside : σ} (useless : UselessOverride tools config outside)
    (file : Path) (text : Option String)
    (hown : (tools.resolve analyzerPackage none file.directory useless.asked).1.isSome = true) :
    let search := libraryPath tools file config empty outside
    let ran := run tools file text config empty outside
    (search.1.1.1.isSome = true ↔ useless.root.isSome = true) ∧
      (config.skips file = false → useless.root = none →
        ran.1.1 = .ok (config.result {} [installMessage file config.packageManager])) ∧
      (config.skips file = false → ∀ root, useless.root = some root →
        ∃ path, (tools.resolve analyzerPackage (some root) file.directory useless.asked).1 =
            some path ∧
          ran = finish tools file text config (some path, []) search.1.2 search.2) := by
  intro search ran
  have hsearch : search.1.1 =
      (useless.root.bind fun root =>
        (tools.resolve analyzerPackage (some root) file.directory useless.asked).1, []) :=
    libraryPath_of_useless useless file
  have hran (hskips : config.skips file = false) :
      ran = finish tools file text config search.1.1 search.1.2 search.2 :=
    run_of_not_skips hskips text empty outside
  have hfound := exists_found_of_grows useless hgrows hown
  refine ⟨?_, fun hskips hroot => ?_, fun hskips root hroot => ?_⟩
  · rw [hsearch]
    cases useless.root with
    | none => simp
    | some root =>
      obtain ⟨path, hpath⟩ := hfound root
      simp [hpath]
  · rw [hran hskips, hsearch, hroot, Option.bind_none]
    rfl
  · obtain ⟨path, hpath⟩ := hfound root
    refine ⟨path, hpath, ?_⟩
    rw [hran hskips, hsearch, hroot, Option.bind_some, hpath]

/-- An outside with an analyzer in the directory `/w` and nowhere else.  A package
manager names the directory `root`. -/
def installedIn (root : Option Path) : Toolchain Unit Unit where
  resolve _ _ directory :=
    return if directory = ⟨"/w"⟩ then some ⟨"/w/node_modules/eslint/lib/api.js"⟩ else none
  globalRoot _ := return root
  load _ := return .ok ()
  lint _ _ := return .ok {}
  pathExists _ := return true

theorem searchGrows_installedIn (root : Option Path) : SearchGrows (installedIn root) :=
  fun _ _ _ hfound => hfound

/-- The directory `/opt` is searched in vain. -/
def searchesOpt (root : Option Path) :
    UselessOverride (installedIn root) { nodePath := some ⟨"/opt"⟩ } () where
  nodePath := ⟨"/opt"⟩
  root := root
  seen := ()
  searched := ()
  asked := ()
  set := rfl
  present := rfl
  nothing := rfl
  named := rfl

/-- With a directory of the package manager the analyzer beside the file is found
and run. -/
theorem useless_override_needs_root_found :
    let tools := installedIn (some ⟨"/usr/lib/node_modules"⟩)
    let config : RunConfiguration := { nodePath := some ⟨"/opt"⟩ }
    SearchGrows tools ∧ config.skips ⟨"/w/a.ts"⟩ = false ∧
      (tools.resolve analyzerPackage none (Path.directory ⟨"/w/a.ts"⟩) ()).1.isSome = true ∧
      (libraryPath tools ⟨"/w/a.ts"⟩ config empty ()).1.1.1.isSome = true ∧
      (run tools ⟨"/w/a.ts"⟩ none config empty ()).1.1 = .ok (config.result {} []) := by
  intro tools config
  have hgrows : SearchGrows tools := searchGrows_installedIn _
  have hskips : config.skips ⟨"/w/a.ts"⟩ = false := by decide
  have hown : (tools.resolve analyzerPackage none (Path.directory ⟨"/w/a.ts"⟩) ()).1.isSome =
      true := by decide
  obtain ⟨hfound, -, hgoes⟩ :=
    useless_override_needs_root hgrows (searchesOpt _) ⟨"/w/a.ts"⟩ none hown
  obtain ⟨path, -, hran⟩ := hgoes hskips _ rfl
  refine ⟨hgrows, hskips, hown, hfound.mpr rfl, ?_⟩
  rw [hran]
  rfl

/-- Without one it is not: the analyzer is installed beside the file, and a directory
is set in which it is not. -/
theorem useless_override_loses_install :
    let tools := installedIn none
    let config : RunConfiguration := { nodePath := some ⟨"/opt"⟩ }
    SearchGrows tools ∧ config.skips ⟨"/w/a.ts"⟩ = false ∧
      (tools.pathExists ⟨"/opt"⟩ ()).1 = true ∧
      (tools.resolve analyzerPackage (some ⟨"/opt"⟩) ⟨"/opt"⟩ ()).1 = none ∧
      (tools.resolve analyzerPackage none (Path.directory ⟨"/w/a.ts"⟩) ()).1.isSome = true ∧
      (run tools ⟨"/w/a.ts"⟩ none { config with nodePath := none } empty ()).1.1 =
        .ok (config.result {} []) ∧
      (run tools ⟨"/w/a.ts"⟩ none config empty ()).1.1 =
        .ok (config.result {} [installMessage ⟨"/w/a.ts"⟩ .npm]) := by
  refine ⟨searchGrows_installedIn none, ?_, ?_, ?_, ?_, ?_, ?_⟩
  · decide
  · rfl
  · rfl
  · decide
  · rfl
  · rfl

end LintLayer.Runner
