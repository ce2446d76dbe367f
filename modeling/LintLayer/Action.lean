import LintLayer.Batch
import LintLayer.Json.Basic
import LintLayer.Problem

/-!
# Code actions

The fixes that the layer offers: the fix of one problem, the fix of every
problem of its rule, the fix of every problem of the file, and a comment
that silences the rule.  The actions of one rule share a group id.
-/

namespace LintLayer

/-- A fix that the host can offer.  `group` joins actions that can be
applied together. -/
structure CodeAction where
  name : String
  description : String
  changes : List FileEdits
  group : Option String := none
  groupDescription : Option String := none
  deriving DecidableEq, Repr

/-- The number of edits in all files. -/
def CodeAction.editCount (action : CodeAction) : Nat :=
  action.changes.foldr (fun change count => change.edits.length + count) 0

/-- The answer to a request for a whole group: the edits, and commands that
only the host understands. -/
structure CombinedActions where
  changes : List FileEdits
  commands : List Json
  deriving Repr

namespace CodeAction

/-- The name of every action of the layer. -/
def lintName : String := "eslint"

/-- What a group id starts with. -/
def groupMark : String := "eslint:"

/-- The group id of a rule. -/
def groupOf (rule : String) : String :=
  groupMark ++ rule

/-- The rest of a text after a beginning. -/
def dropMark : List Char → List Char → Option (List Char)
  | [], rest => some rest
  | _ :: _, [] => none
  | m :: mark, c :: rest => if m = c then dropMark mark rest else none

/-- The rule of a group id.  An id of the host, or one that names no rule,
has none. -/
def ruleOfGroup (group : String) : Option String :=
  match dropMark groupMark.toList group.toList with
  | some (c :: rest) => some (String.ofList (c :: rest))
  | _ => none

/-- An action that edits one file. -/
def onFile (file : Path) (description : String) (edits : List Edit) : CodeAction :=
  { name := lintName, description, changes := [⟨file, edits⟩] }

/-- Applies the fix of one problem. -/
def fixOne (file : Path) (problem : Problem) : CodeAction :=
  onFile file ("Fix: " ++ problem.finding.message) problem.edits

/-- Applies the fixes of one rule that can be applied together. -/
def fixRule (file : Path) (registered : ProblemSet) (rule : String) : CodeAction :=
  let description := "Fix all '" ++ rule ++ "'"
  { onFile file description (Batch.select ((registered.fixableFor rule).map Problem.edits)) with
    group := some (groupOf rule)
    groupDescription := some description }

/-- Applies the fixes of the file that can be applied together. -/
def fixAll (file : Path) (registered : ProblemSet) : CodeAction :=
  onFile file "Fix all auto-fixable eslint failures"
    (Batch.select (registered.fixable.map Problem.edits))

/-- Silences the rule of a problem on its line. -/
def disableRule? (file : Path) (problem : Problem) : Option CodeAction := do
  let rule ← problem.rule
  let edit ← problem.disableEdit
  return onFile file ("Disable rule '" ++ rule ++ "'") [edit]

end CodeAction

end LintLayer
