/-!
# TOML values

A document is a table.  Of the values that no option has, such as numbers
and dates, only the kind is kept.

A table is closed, or it can still be extended by later lines of the
document.  How it was made decides by which lines.
-/

namespace LintLayer.Toml

/-- How a table came to be. -/
inductive Origin where
  /-- Named only as a part of the path of another header. -/
  | implied
  /-- Made by a header of its own. -/
  | header
  /-- Made or extended by a dotted key. -/
  | dotted
  /-- Written between braces; nothing can be added. -/
  | inline
  deriving DecidableEq, Repr

/-- A value. -/
inductive Value where
  | string (text : String)
  | boolean (value : Bool)
  | number
  | time
  | array (items : List Value)
  | table (origin : Origin) (entries : List (String × Value))
  /-- The tables of a `[[header]]`, the last one first. -/
  | tables (reversed : List (List (String × Value)))
  deriving Repr, Inhabited

/-- The entries of a table. -/
abbrev Entries := List (String × Value)

/-- Puts a value in the place of a key, or at the end. -/
def replace (entries : Entries) (key : String) (value : Value) : Entries :=
  if entries.any fun entry => entry.1 == key then
    entries.map fun entry => if entry.1 == key then (key, value) else entry
  else entries ++ [(key, value)]

/-- Adds a value under a new key. -/
def addNew? (entries : Entries) (key : String) (value : Value) : Option Entries :=
  match entries.lookup key with
  | some _ => none
  | none => some (entries ++ [(key, value)])

/-- Adds a value under a dotted key.  A dotted key goes through tables that
are implied or made by dotted keys, and from then on they count as made by
dotted keys.  It can go through the last table of a list, but not end
there. -/
def addDotted? (entries : Entries) : List String → String → Value → Option Entries
  | [], last, value => addNew? entries last value
  | key :: keys, last, value =>
    match entries.lookup key with
    | none => do
      let inner ← addDotted? [] keys last value
      return entries ++ [(key, .table .dotted inner)]
    | some (.table origin inner) =>
      if origin = .implied ∨ origin = .dotted then do
        let inner ← addDotted? inner keys last value
        return replace entries key (.table .dotted inner)
      else none
    | some (.tables (inner :: earlier)) =>
      if keys.isEmpty then none
      else do
        let inner ← addDotted? inner keys last value
        return replace entries key (.tables (inner :: earlier))
    | _ => none

/-- Opens the table of a header, given by its path.  A table can be opened
once, unless it was only implied. -/
def openTable? (entries : Entries) : List String → String → Option Entries
  | [], last =>
    match entries.lookup last with
    | none => some (entries ++ [(last, .table .header [])])
    | some (.table .implied inner) => some (replace entries last (.table .header inner))
    | _ => none
  | key :: keys, last =>
    match entries.lookup key with
    | none => do
      let inner ← openTable? [] keys last
      return entries ++ [(key, .table .implied inner)]
    | some (.table .inline _) => none
    | some (.table origin inner) => do
      let inner ← openTable? inner keys last
      return replace entries key (.table origin inner)
    | some (.tables (inner :: earlier)) => do
      let inner ← openTable? inner keys last
      return replace entries key (.tables (inner :: earlier))
    | _ => none

/-- Adds a table to the list of a double header, given by its path. -/
def appendTable? (entries : Entries) : List String → String → Option Entries
  | [], last =>
    match entries.lookup last with
    | none => some (entries ++ [(last, .tables [[]])])
    | some (.tables earlier) => some (replace entries last (.tables ([] :: earlier)))
    | _ => none
  | key :: keys, last =>
    match entries.lookup key with
    | none => do
      let inner ← appendTable? [] keys last
      return entries ++ [(key, .table .implied inner)]
    | some (.table .inline _) => none
    | some (.table origin inner) => do
      let inner ← appendTable? inner keys last
      return replace entries key (.table origin inner)
    | some (.tables (inner :: earlier)) => do
      let inner ← appendTable? inner keys last
      return replace entries key (.tables (inner :: earlier))
    | _ => none

/-- Adds a value to the table that a path of keys leads to. -/
def addAt? (entries : Entries) :
    List String → List String → String → Value → Option Entries
  | [], keys, last, value => addDotted? entries keys last value
  | step :: steps, keys, last, value =>
    match entries.lookup step with
    | some (.table origin inner) => do
      let inner ← addAt? inner steps keys last value
      return replace entries step (.table origin inner)
    | some (.tables (inner :: earlier)) => do
      let inner ← addAt? inner steps keys last value
      return replace entries step (.tables (inner :: earlier))
    | _ => none

end LintLayer.Toml
