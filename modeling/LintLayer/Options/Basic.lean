import LintLayer.Path.Basic

/-!
# Options

What a user can set: which files are linted, how findings are shown, where
the analyzer is looked for, and which package manager installs it.
-/

namespace LintLayer

/-- The tool that installs packages. -/
inductive PackageManager where
  | npm
  | pnpm
  | yarn
  deriving DecidableEq, Repr, Inhabited

namespace PackageManager

/-- The name of the program. -/
def name : PackageManager → String
  | .npm => "npm"
  | .pnpm => "pnpm"
  | .yarn => "yarn"

/-- The manager of a name. -/
def ofName? (name : String) : Option PackageManager :=
  if name = "npm" then some .npm
  else if name = "pnpm" then some .pnpm
  else if name = "yarn" then some .yarn
  else none

/-- The command that installs a package into a project. -/
def localInstall (manager : PackageManager) (package : String) : String :=
  match manager with
  | .npm => "npm install " ++ package
  | .pnpm => "pnpm install " ++ package
  | .yarn => "yarn add " ++ package

/-- The command that installs a package for all projects. -/
def globalInstall (manager : PackageManager) (package : String) : String :=
  match manager with
  | .npm => "npm install -g " ++ package
  | .pnpm => "pnpm install -g " ++ package
  | .yarn => "yarn global add " ++ package

end PackageManager

/-- The options of the layer. -/
structure Options where
  /-- Show nothing of the analyzer while the host has diagnostics. -/
  suppressWhileHostReports : Bool := false
  /-- Leave declaration files out. -/
  ignoreDefinitionFiles : Bool := true
  /-- Lint plain scripts too. -/
  lintScripts : Bool := false
  /-- Patterns of files that are left out. -/
  exclude : List String := []
  packageManager : PackageManager := .npm
  /-- Show every finding as a warning; unset means yes. -/
  alwaysWarnings : Option Bool := none
  /-- The configuration file of the analyzer. -/
  configFile : Option Path := none
  /-- A directory to look for the analyzer in, before the project. -/
  nodePath : Option Path := none
  /-- Obey the comments that configure the analyzer. -/
  allowInlineConfig : Bool := true
  /-- Report comments that silence nothing. -/
  reportUnusedDirectives : Bool := false
  deriving DecidableEq, Repr, Inhabited

namespace Options

/-- Whether every finding is shown as a warning. -/
def showAsWarnings (options : Options) : Bool :=
  options.alwaysWarnings.getD true

/-- The configuration file that is set, as seen from `base`. -/
def configFileFrom (options : Options) (base : Path) : Option Path :=
  options.configFile.map base.join

/-- The names under which the analyzer finds its configuration, the first
one first. -/
def configNames : List String :=
  ["eslint.config.js", "eslint.config.mjs", "eslint.config.cjs", ".eslintrc", ".eslintrc.js",
    ".eslintrc.cjs", ".eslintrc.json", ".eslintrc.yaml", ".eslintrc.yml"]

/-- The places where a configuration file is looked for: the one that is
set, then the well-known names in `base`. -/
def configCandidates (options : Options) (base : Path) : List Path :=
  (options.configFileFrom base).toList ++ configNames.map fun name => base.join ⟨name⟩

/-- The first candidate that is a file. -/
def findConfig {m : Type → Type} [Monad m] (isFile : Path → m Bool) (options : Options)
    (base : Path) : m (Option Path) :=
  (options.configCandidates base).findM? isFile

end Options

end LintLayer
