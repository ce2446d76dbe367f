import LintLayer.Json.Basic

/-!
# Records in JSON

A record is written as an object with one member a field.  It may also be
given as an array of its fields in order.  Members that are no field are
skipped, a field that is given twice is an error, and so are more items
than fields.
-/

namespace LintLayer.Json

/-- What is given for one field: a value, nothing in an object, or nothing
because the array ended before it. -/
inductive Slot where
  | given (value : Json)
  | absent
  | ended
  deriving Repr, Inhabited

/-- The slot of one field in the members of an object.  There is none when
the field is given twice. -/
def slotOf? (members : List (String × Json)) (name : String) : Option Slot :=
  match members.filter fun entry => entry.1 = name with
  | [] => some .absent
  | [(_, value)] => some (.given value)
  | _ => none

/-- The slots of the fields `names`, one for each. -/
def record? (names : List String) : Json → Option (List Slot)
  | .obj members => names.mapM (slotOf? members)
  | .arr items =>
    if names.length < items.length then none
    else some (items.map Slot.given ++ List.replicate (names.length - items.length) Slot.ended)
  | _ => none

/-- A field that has to be given. -/
def Slot.required {α : Type} (read : Json → Option α) : Slot → Option α
  | .given value => read value
  | _ => none

/-- A field with a default. -/
def Slot.orDefault {α : Type} (read : Json → Option α) (default : α) : Slot → Option α
  | .given value => read value
  | _ => some default

/-- A field that may be absent from an object, but not cut off an array. -/
def Slot.orAbsent {α : Type} (read : Json → Option α) (default : α) : Slot → Option α
  | .given value => read value
  | .absent => some default
  | .ended => none

/-- A text. -/
def asString? : Json → Option String
  | .str value => some value
  | _ => none

/-- A natural number up to a bound. -/
def asNat? (bound : Nat) : Json → Option Nat
  | .int value => if 0 ≤ value ∧ value.toNat < bound then some value.toNat else none
  | _ => none

/-- An offset or a count. -/
def asWord? : Json → Option Nat :=
  asNat? (Nat.pow 2 64)

/-- A number of eight bits. -/
def asUInt8? (value : Json) : Option UInt8 :=
  (asNat? (Nat.pow 2 8) value).map UInt8.ofNat

/-- A number of 32 bits. -/
def asUInt32? (value : Json) : Option UInt32 :=
  (asNat? (Nat.pow 2 32) value).map UInt32.ofNat

/-- Null, or a value. -/
def asOption? {α : Type} (read : Json → Option α) : Json → Option (Option α)
  | .null => some none
  | value => (read value).map some

/-- A list of values. -/
def asList? {α : Type} (read : Json → Option α) : Json → Option (List α)
  | .arr items => items.mapM read
  | _ => none

/-- Two values in an array. -/
def asPair? {α β : Type} (first : Json → Option α) (second : Json → Option β) :
    Json → Option (α × β)
  | .arr [a, b] => do return (← first a, ← second b)
  | _ => none

/-- A choice by name: the name, or an object with the name as its only key
and null as the value. -/
def asChoice? {α : Type} (named : String → Option α) : Json → Option α
  | .str name => named name
  | .obj [(name, .null)] => named name
  | _ => none

/-- A value in which everything can be read. -/
def asJson? (value : Json) : Option Json :=
  if value.isReadable then some value.sorted else none

/-- Null for nothing. -/
def ofOption {α : Type} (write : α → Json) : Option α → Json
  | some value => write value
  | none => .null

/-- A natural number. -/
def ofNat (value : Nat) : Json :=
  .int value

end LintLayer.Json
