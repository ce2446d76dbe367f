import LintLayer.Glob.Nesting
import LintLayer.Glob.Parser
import LintLayer.Path.Basic

/-!
# Files that are left out

Declaration files and plain scripts are told by their names.  Further files
are left out by glob patterns, tried on the path below the workspace first
and then on the path as it is given.
-/

namespace LintLayer

namespace Path

/-- Whether one list of characters ends with another. -/
def endsWith (text ending : List Char) : Bool :=
  ending.reverse.isPrefixOf text.reverse

/-- A declaration file: its name ends in `.d.ts`. -/
def isDefinition (path : Path) : Bool :=
  path.fileName?.any fun name => endsWith name.toList ".d.ts".toList

/-- A plain script: its extension is `js` or `jsx` in any case. -/
def isScript (path : Path) : Bool :=
  path.extension?.any fun extension =>
    let lower := extension.toList.map Char.toLower
    lower == "js".toList || lower == "jsx".toList

end Path

/-- The patterns that leave files out. -/
structure Exclusion where
  patterns : List (List Glob.Token)

namespace Exclusion

/-- The well-formed ones of some patterns.  One that is nested too deeply
takes all others with it. -/
def ofPatterns (patterns : List String) : Exclusion :=
  let found := patterns.filterMap Glob.parse?
  if found.all fun tokens => Glob.nesting tokens ≤ Glob.nestingLimit then ⟨found⟩ else ⟨[]⟩

/-- Whether no pattern is left. -/
def isEmpty (exclusion : Exclusion) : Bool :=
  exclusion.patterns.isEmpty

/-- Whether a pattern matches the text of a path. -/
def isMatch (exclusion : Exclusion) (path : Path) : Bool :=
  exclusion.patterns.any fun tokens => Glob.isMatch tokens path.text

/-- Whether a file is left out of the workspace `root`. -/
def excludes (exclusion : Exclusion) (file : Path) (root : Option Path) : Bool :=
  ((root.bind file.stripPrefix?).any exclusion.isMatch) || exclusion.isMatch file

end Exclusion

end LintLayer
