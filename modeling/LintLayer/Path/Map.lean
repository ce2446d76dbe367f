import LintLayer.Path.Basic

/-!
# Maps by path

A map whose keys are paths.  Paths with the same components are one key.
-/

namespace LintLayer.Path

/-- Values by the components of a path, the newest first. -/
structure Map (α : Type) where
  entries : List (List Component × α) := []

namespace Map

variable {α : Type}

/-- The map without keys. -/
def empty : Map α :=
  {}

/-- The value of a path. -/
def get? (map : Map α) (path : Path) : Option α :=
  map.entries.lookup path.components

/-- The map without a path. -/
def erase (map : Map α) (path : Path) : Map α :=
  ⟨map.entries.filter fun entry => entry.1 ≠ path.components⟩

/-- The map in which a path has the given value. -/
def insert (map : Map α) (path : Path) (value : α) : Map α :=
  ⟨(path.components, value) :: (map.erase path).entries⟩

end Map

end LintLayer.Path
