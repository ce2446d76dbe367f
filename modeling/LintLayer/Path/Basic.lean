import LintLayer.Text.Measure

/-!
# Paths

A path is the text of a file name with `/` between its parts.  Two paths
are the same when they have the same components: repeated `/`, an inner
`.` and a trailing `/` do not count, a leading `.` does.

The text is read as a head and a list of segments, the pieces between the
slashes after the head.  A segment that is empty or `.` is blank: it is no
component, but it stays in the text unless it stands at a trimmed end.
-/

namespace LintLayer

/-- The text of a path. -/
structure Path where
  text : String
  deriving DecidableEq, Repr, Inhabited

namespace Path

/-- One step of a path. -/
inductive Component where
  | root
  | here
  | up
  | name (text : String)
  deriving DecidableEq, Repr

/-- The text of one step. -/
def Component.text : Component → String
  | .root => "/"
  | .here => "."
  | .up => ".."
  | .name text => text

/-- What a path starts with: the root, a leading `.`, or a segment. -/
inductive Head where
  | root
  | here
  | none
  deriving DecidableEq, Repr

/-- The component of the head. -/
def Head.component? : Head → Option Component
  | .root => some .root
  | .here => some .here
  | .none => .none

/-- The text of the head. -/
def Head.chars : Head → List Char
  | .root => ['/']
  | .here => ['.']
  | .none => []

/-- A segment that is no component. -/
def isBlank (segment : List Char) : Bool :=
  segment == [] || segment == ['.']

/-- The component of a segment, if it is not blank. -/
def segmentComponent? (segment : List Char) : Option Component :=
  if isBlank segment then none
  else if segment = ['.', '.'] then some .up
  else some (.name (String.ofList segment))

/-- The head of a path and the segments after it. -/
def view (path : Path) : Head × List (List Char) :=
  match path.text.toList with
  | '/' :: rest => (.root, Text.splitOn '/' rest)
  | ['.'] => (.here, [])
  | '.' :: '/' :: rest => (.here, Text.splitOn '/' ('/' :: rest))
  | chars => (.none, Text.splitOn '/' chars)

/-- The steps of a path. -/
def components (path : Path) : List Component :=
  let (head, segments) := path.view
  head.component?.toList ++ segments.filterMap segmentComponent?

/-- Whether two paths have the same components. -/
def same (p q : Path) : Bool :=
  p.components == q.components

/-- Whether the path starts at the root. -/
def isAbsolute (path : Path) : Bool :=
  path.text.toList.head? == some '/'

/-- Drops the blank segments at the end, given in reverse. -/
def trimEnd (reversed : List (List Char)) : List (List Char) :=
  reversed.dropWhile isBlank

/-- The path of a head and of segments in reverse, blank ends left out. -/
def ofReversed (head : Head) (reversed : List (List Char)) : Path :=
  ⟨String.ofList (head.chars ++ Text.joinWith '/' (trimEnd reversed).reverse)⟩

/-- The paths above the segments, nearest first.  The segments are given in
reverse. -/
def above (head : Head) : List (List Char) → List Path
  | [] => if head = .here then [⟨""⟩] else []
  | segment :: rest =>
    if isBlank segment then above head rest
    else ofReversed head rest :: above head rest

/-- The directories above a path, nearest first.  The last one above a
relative path is the empty path. -/
def properAncestors (path : Path) : List Path :=
  let (head, segments) := path.view
  above head segments.reverse

/-- The nearest of the paths above the segments, given in reverse. -/
def nearestAbove? (head : Head) : List (List Char) → Option Path
  | [] => if head = .here then some ⟨""⟩ else none
  | segment :: rest =>
    if isBlank segment then nearestAbove? head rest else some (ofReversed head rest)

/-- The directory that holds the path. -/
def parent? (path : Path) : Option Path :=
  let (head, segments) := path.view
  nearestAbove? head segments.reverse

/-- The last component, if it is a name. -/
def fileName? (path : Path) : Option String :=
  match path.components.getLast? with
  | some (.name text) => some text
  | _ => none

/-- The part of the file name after its last dot.  A name that starts with
its only dot has none. -/
def extension? (path : Path) : Option String := do
  let name ← path.fileName?
  let reversed := name.toList.reverse
  let after := reversed.takeWhile (· ≠ '.')
  match reversed.dropWhile (· ≠ '.') with
  | [] => none
  | [_] => none
  | _ => some (String.ofList after.reverse)

/-- The path `tail` as seen from `base`.  An absolute tail stands for
itself. -/
def join (base tail : Path) : Path :=
  if tail.isAbsolute then tail
  else match base.text.toList.getLast? with
    | none => tail
    | some '/' => ⟨base.text ++ tail.text⟩
    | some _ => ⟨base.text ++ "/" ++ tail.text⟩

/-- The segments after the first `n` that are components. -/
def dropComponents : Nat → List (List Char) → List (List Char)
  | 0, segments => segments
  | _ + 1, [] => []
  | n + 1, segment :: rest =>
    if isBlank segment then dropComponents (n + 1) rest else dropComponents n rest

/-- The text of a path after the components of `base`, blank ends left out.
Blank segments inside the rest stay. -/
def stripPrefix? (path base : Path) : Option Path :=
  let (head, segments) := path.view
  if base.components.isPrefixOf path.components then
    match base.components.length, head with
    | 0, _ => some (ofReversed head segments.reverse)
    | n + 1, .none =>
      some (ofReversed .none ((dropComponents (n + 1) segments).dropWhile isBlank).reverse)
    | n + 1, _ => some (ofReversed .none ((dropComponents n segments).dropWhile isBlank).reverse)
  else none

/-- The path of a list of steps. -/
def ofComponents (steps : List Component) : Path :=
  steps.foldl (fun path step => path.join ⟨step.text⟩) ⟨""⟩

/-- Takes one step from the steps taken so far, the last one first.  `..`
takes back the last step, whatever it was. -/
def normalStep (taken : List Component) : Component → List Component
  | .up => taken.tail
  | .here => taken
  | step => step :: taken

/-- The path without `.` and with each `..` folded into the step before
it. -/
def normalize (path : Path) : Path :=
  ofComponents (path.components.foldl normalStep []).reverse

/-- The absolute form of a path as seen from the directory `cwd`.  `.` is
left out, `..` stays, a trailing `/` stays, and so do exactly two leading
slashes. -/
def absoluteFrom (cwd path : Path) : Path :=
  let chars := path.text.toList
  let slashes := (chars.takeWhile (· = '/')).length
  let steps := path.components.filter (· ≠ .here)
  let base : Path := if slashes = 0 then cwd else if slashes = 2 then ⟨"//"⟩ else ⟨""⟩
  let steps := if slashes = 2 then steps.tail else steps
  let whole := steps.foldl (fun taken step => taken.join ⟨step.text⟩) base
  if chars.getLast? = some '/' then whole.join ⟨""⟩ else whole

end Path

end LintLayer
