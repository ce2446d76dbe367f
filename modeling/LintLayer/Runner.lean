import LintLayer.Analyzer.Basic
import LintLayer.Exclusion
import LintLayer.Path.Map
import LintLayer.Recency

/-!
# Running the analyzer

A run of one file goes through four steps: the file may be left out, the
analyzer is found, it is loaded, and it is called.  What was found for a
file, what was loaded from a path, and the directory of each package manager
are remembered, failures too.
-/

namespace LintLayer

/-- How the analyzer is run. -/
structure RunConfiguration where
  configFile : Option Path := none
  lintScripts : Bool := false
  ignoreDefinitionFiles : Bool := false
  exclude : List String := []
  packageManager : PackageManager := .npm
  /-- The root of the workspace. -/
  workspace : Option Path := none
  /-- A directory to find the analyzer in, before the file's own. -/
  nodePath : Option Path := none
  allowInlineConfig : Bool := false
  reportUnusedDirectives : Bool := false
  deriving DecidableEq, Repr

namespace RunConfiguration

/-- The configuration of the options in a workspace.  Without a workspace
the configuration file is taken as it is set. -/
def ofOptions (options : Options) (workspace : Option Path) : RunConfiguration :=
  { configFile := match workspace with
      | some root => options.configFileFrom root
      | none => options.configFile
    lintScripts := options.lintScripts
    ignoreDefinitionFiles := options.ignoreDefinitionFiles
    exclude := options.exclude
    packageManager := options.packageManager
    workspace
    nodePath := options.nodePath
    allowInlineConfig := options.allowInlineConfig
    reportUnusedDirectives := options.reportUnusedDirectives }

/-- Whether a file is left out without asking the analyzer. -/
def excludes (config : RunConfiguration) (file : Path) : Bool :=
  (config.ignoreDefinitionFiles && file.isDefinition) ||
    (Exclusion.ofPatterns config.exclude).excludes file config.workspace

/-- Whether a file is skipped: left out, or a plain script that is not to be
linted. -/
def skips (config : RunConfiguration) (file : Path) : Bool :=
  config.excludes file || (file.isScript && !config.lintScripts)

/-- The call for a file. -/
def request (config : RunConfiguration) (file : Path) (text : Option String) : Request :=
  { file
    text
    directory := config.workspace
    configFile := config.configFile
    allowInlineConfig := config.allowInlineConfig
    reportUnusedDirectives := config.reportUnusedDirectives }

end RunConfiguration

/-- What a run gave. -/
structure RunResult where
  report : Report := {}
  warnings : List String := []
  workspace : Option Path := none
  configFile : Option Path := none
  deriving DecidableEq, Repr

/-- The result of a run in a configuration. -/
def RunConfiguration.result (config : RunConfiguration) (report : Report)
    (warnings : List String) : RunResult :=
  { report, warnings, workspace := config.workspace, configFile := config.configFile }

/-- The advice for a file whose analyzer was not found. -/
def installMessage (file : Path) (manager : PackageManager) : String :=
  "Failed to load the " ++ analyzerPackage ++ " library for '" ++ file.text ++ "'. To use " ++
    analyzerPackage ++ ", please install it using '" ++ manager.localInstall analyzerPackage ++
    "' or globally using '" ++ manager.globalInstall analyzerPackage ++
    "'. Be sure to restart your editor after installing " ++ analyzerPackage ++ "."

/-- The warning about a directory that does not exist. -/
def ignoredNodePathMessage (nodePath : Path) : String :=
  "The setting 'nodePath' refers to '" ++ nodePath.text ++
    "', but this path does not exist. The setting will be ignored."

/-- The directory of a file; `.` for a file without one. -/
def Path.directory (file : Path) : Path :=
  match file.parent? with
  | some parent => if parent.text = "" then ⟨"."⟩ else parent
  | none => ⟨"."⟩

/-- The number of files for which the place of the analyzer is
remembered. -/
def resolutionCapacity : Nat := 100

/-- What is remembered between runs. -/
structure Runner (lib : Type) where
  /-- Where the analyzer was found, by file. -/
  resolutions : Recency (List Path.Component) (Option Path)
  /-- What was loaded, by the path that was found. -/
  libraries : Path.Map (Except LoadError lib)
  /-- The directory of each package manager that was asked. -/
  globalRoots : List (PackageManager × Option Path)

namespace Runner

variable {σ lib : Type}

/-- Nothing remembered. -/
def empty : Runner lib :=
  { resolutions := Recency.empty resolutionCapacity
    libraries := .empty
    globalRoots := [] }

/-- Forgets everything. -/
def clear (runner : Runner lib) : Runner lib :=
  { resolutions := runner.resolutions.clear
    libraries := .empty
    globalRoots := [] }

/-- The number of files for which the place of the analyzer is
remembered. -/
def cachedResolutions (runner : Runner lib) : Nat :=
  runner.resolutions.size

/-- An action on the memory and on the outside. -/
abbrev Action (σ lib : Type) := StateT (Runner lib) (StateM σ)

variable (tools : Toolchain σ lib)

/-- The directory of a package manager, asked for once. -/
def globalRoot (manager : PackageManager) : Action σ lib (Option Path) := do
  match (← get).globalRoots.lookup manager with
  | some root => return root
  | none =>
    let root ← tools.globalRoot manager
    modify fun runner => { runner with globalRoots := (manager, root) :: runner.globalRoots }
    return root

/-- The directory that is searched in place of the file's own, and the
warning if it does not exist. -/
def searchOverride (config : RunConfiguration) : StateM σ (Option Path × List String) := do
  match config.nodePath with
  | none => return (none, [])
  | some nodePath =>
    if ← tools.pathExists nodePath then return (some nodePath, [])
    else return (none, [ignoredNodePathMessage nodePath])

/-- Finds the analyzer for a file: in the directory that is set, or as seen
from the file, and then among the modules installed for all projects. -/
def resolveLibrary (file : Path) (config : RunConfiguration) :
    Action σ lib (Option Path × List String) := do
  let (nodePath, warnings) ← searchOverride tools config
  let found ← tools.resolve analyzerPackage nodePath (nodePath.getD file.directory)
  match found with
  | some library => return (some library, warnings)
  | none =>
    match ← globalRoot tools config.packageManager with
    | none => return (none, warnings)
    | some root => return (← tools.resolve analyzerPackage (some root) file.directory, warnings)

/-- Where the analyzer for a file is, and the warnings of finding it.  What
is remembered comes without warnings. -/
def libraryPath (file : Path) (config : RunConfiguration) :
    Action σ lib (Option Path × List String) := do
  let runner ← get
  let (held, resolutions) := runner.resolutions.get file.components
  set { runner with resolutions }
  match held with
  | some found => return (found, [])
  | none =>
    let (found, warnings) ← resolveLibrary tools file config
    modify fun runner =>
      { runner with resolutions := (runner.resolutions.insert file.components found).2 }
    return (found, warnings)

/-- Loads an analyzer, once for each path. -/
def loadLibrary (path : Path) : Action σ lib (Except LoadError lib) := do
  match (← get).libraries.get? path with
  | some loaded => return loaded
  | none =>
    let loaded ← tools.load path
    modify fun runner => { runner with libraries := runner.libraries.insert path loaded }
    return loaded

/-- Lints one file.  Only a failure of the call itself is an error; an
analyzer that is not found or not loaded gives an empty report. -/
def run (file : Path) (text : Option String) (config : RunConfiguration) :
    Action σ lib (Except LintError RunResult) := do
  if config.skips file then return .ok (config.result {} [])
  else
    let (found, warnings) ← libraryPath tools file config
    match found with
    | none =>
      return .ok (config.result {} (warnings ++ [installMessage file config.packageManager]))
    | some path =>
      match ← loadLibrary tools path with
      | .error _ => return .ok (config.result {} warnings)
      | .ok library =>
        match ← tools.lint library (config.request file text) with
        | .error error => return .error error
        | .ok outcome =>
          return .ok (config.result outcome.report (warnings ++ outcome.warnings))

end Runner

end LintLayer
