/-!
# A bounded cache by recency

The cache holds at most a fixed number of entries, the most recently used
one first.  Reading or writing a key makes it the most recent one, and a
write into a full cache drops the entry that was not used for the longest
time.
-/

namespace LintLayer

/-- Entries by recency, at most `capacity` of them. -/
structure Recency (κ ν : Type) where
  capacity : Nat
  entries : List (κ × ν)
  deriving Repr

namespace Recency

variable {κ ν : Type} [DecidableEq κ]

/-- The empty cache.  A capacity of zero counts as one. -/
def empty (capacity : Nat) : Recency κ ν :=
  ⟨max capacity 1, []⟩

/-- The entries of the other keys. -/
def others (cache : Recency κ ν) (key : κ) : List (κ × ν) :=
  cache.entries.filter fun entry => entry.1 ≠ key

/-- The value of a key, and the cache in which the key is the most recent
one. -/
def get (cache : Recency κ ν) (key : κ) : Option ν × Recency κ ν :=
  match cache.entries.lookup key with
  | some value => (some value, { cache with entries := (key, value) :: cache.others key })
  | none => (none, cache)

/-- The entry that was dropped to make room, and the cache in which the key
is the most recent one. -/
def insert (cache : Recency κ ν) (key : κ) (value : ν) : Option (κ × ν) × Recency κ ν :=
  let entries := (key, value) :: cache.others key
  if cache.capacity < entries.length then
    (entries.getLast?, { cache with entries := entries.dropLast })
  else (none, { cache with entries })

/-- Whether a key is held. -/
def contains (cache : Recency κ ν) (key : κ) : Bool :=
  (cache.entries.lookup key).isSome

/-- Forgets every entry. -/
def clear (cache : Recency κ ν) : Recency κ ν :=
  { cache with entries := [] }

/-- The number of entries. -/
def size (cache : Recency κ ν) : Nat :=
  cache.entries.length

/-- Whether there is no entry. -/
def isEmpty (cache : Recency κ ν) : Bool :=
  cache.entries.isEmpty

end Recency

end LintLayer
