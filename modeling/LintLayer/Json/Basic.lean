import LintLayer.Json.Real

/-!
# JSON values

The members of an object keep the order in which they are written and may
repeat a key; who reads an object decides what a repeated key means.

A literal can be well formed and still stand for no value: a string with
half of a surrogate pair, a number above the greatest float, or a container
nested too deeply.  Such a literal is `unreadable`.  It does no harm where
nobody looks at it.
-/

namespace LintLayer

/-- A JSON value. -/
inductive Json where
  | null
  | bool (value : Bool)
  | int (value : Int)
  | float (value : Json.Real)
  | str (value : String)
  | arr (items : List Json)
  | obj (members : List (String × Json))
  | unreadable
  deriving Repr, Inhabited

namespace Json

mutual

/-- Whether the value and all its parts can be read. -/
def isReadable : Json → Bool
  | .arr items => allReadable items
  | .obj members => membersReadable members
  | .unreadable => false
  | _ => true

/-- Whether all items can be read. -/
def allReadable : List Json → Bool
  | [] => true
  | item :: items => isReadable item && allReadable items

/-- Whether all members can be read. -/
def membersReadable : List (String × Json) → Bool
  | [] => true
  | (_, value) :: members => isReadable value && membersReadable members

end

/-- Puts a member among members sorted by key.  A later member replaces an
earlier one of the same key. -/
def insertMember (key : String) (value : Json) :
    List (String × Json) → List (String × Json)
  | [] => [(key, value)]
  | (other, held) :: members =>
    if key < other then (key, value) :: (other, held) :: members
    else if key = other then (key, value) :: members
    else (other, held) :: insertMember key value members

mutual

/-- The value with the members of every object sorted by key, the last of
equal keys kept. -/
def sorted : Json → Json
  | .arr items => .arr (sortedItems items)
  | .obj members => .obj (sortedMembers [] members)
  | value => value

/-- The sorted items. -/
def sortedItems : List Json → List Json
  | [] => []
  | item :: items => sorted item :: sortedItems items

/-- The members put one after the other into a sorted list. -/
def sortedMembers (done : List (String × Json)) : List (String × Json) → List (String × Json)
  | [] => done
  | (key, value) :: members => sortedMembers (insertMember key (sorted value) done) members

end

/-- The value of a key, if the value is an object that has it. -/
def member? (value : Json) (key : String) : Option Json :=
  match value with
  | .obj members => members.lookup key
  | _ => none

end Json

end LintLayer
