import LintLayer.Path.Map

/-!
# Reading a map by path

What a path has after an entry was erased or inserted.  Two paths with the
same components are one key, so the lemmas compare components and never the
texts of paths.
-/

namespace LintLayer.Path.Map

variable {α : Type}

/-- Leaving out one key hides it and no other. -/
theorem lookup_filter_ne {κ : Type} [BEq κ] [LawfulBEq κ] [DecidableEq κ]
    (entries : List (κ × α)) (key other : κ) :
    (entries.filter fun entry => entry.1 ≠ key).lookup other =
      if other = key then none else entries.lookup other := by
  induction entries with
  | nil => simp
  | cons entry entries ih =>
    rw [List.filter_cons, List.lookup_cons]
    by_cases hkey : entry.1 = key
    · have hdrop : ¬ decide (entry.1 ≠ key) = true := by simp [hkey]
      rw [if_neg hdrop, ih, hkey]
      by_cases hother : other = key
      · rw [if_pos hother, if_pos hother]
      · have hne : (other == key) = false := by simpa using hother
        rw [if_neg hother, if_neg hother, hne]
    · have hstay : decide (entry.1 ≠ key) = true := by simp [hkey]
      rw [if_pos hstay, List.lookup_cons, ih]
      by_cases hother : other = key
      · have hne : (other == entry.1) = false := by
          rw [hother]
          simpa using Ne.symm hkey
        rw [if_pos hother, if_pos hother, hne]
      · rw [if_neg hother, if_neg hother]

@[simp] theorem get?_empty (path : Path) : (empty : Map α).get? path = none := rfl

theorem get?_erase (map : Map α) (path other : Path) :
    (map.erase path).get? other =
      if other.components = path.components then none else map.get? other :=
  lookup_filter_ne map.entries path.components other.components

theorem get?_insert (map : Map α) (path other : Path) (value : α) :
    (map.insert path value).get? other =
      if other.components = path.components then some value else map.get? other := by
  change List.lookup other.components ((path.components, value) :: (map.erase path).entries) = _
  rw [List.lookup_cons]
  by_cases h : other.components = path.components
  · have heq : (other.components == path.components) = true := by simpa using h
    rw [heq, if_pos h]
  · have hne : (other.components == path.components) = false := by simpa using h
    have herase := get?_erase map path other
    rw [if_neg h] at herase
    rw [hne, if_neg h]
    exact herase

end LintLayer.Path.Map
