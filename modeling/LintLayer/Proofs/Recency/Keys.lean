import LintLayer.Recency
import Mathlib.Data.List.Basic
import Mathlib.Data.List.Dedup
import Mathlib.Data.List.Nodup

/-!
# The entries and the keys of a bounded cache

Reading a key brings no new entries, and writing one brings only its own.

Reading a key that is held and writing a key do the same to the keys: the key
moves to the front, and what no longer fits falls off the end.  `touch` is
this step.

`latest` says which keys a list of uses leaves, without the cache: each key
once, the one that was used last first.  A cache of some capacity holds the
first ones of them, and `take_latest_concat` is the step of the induction
that shows it.
-/

namespace LintLayer.Recency

variable {κ ν : Type} [DecidableEq κ]

/-! ## Entries -/

theorem mem_of_get_eq_some {cache : Recency κ ν} {key : κ} {value : ν}
    (h : (cache.get key).1 = some value) : (key, value) ∈ cache.entries := by
  unfold get at h
  split at h
  · rename_i held hlookup
    obtain ⟨before, rest, hentries, _⟩ := List.lookup_eq_some_iff.mp hlookup
    rw [Option.some.inj h] at hentries
    rw [hentries]
    simp
  · simp at h

/-- Reading a key brings no new entries. -/
theorem mem_of_mem_get {cache : Recency κ ν} {key : κ} {entry : κ × ν}
    (h : entry ∈ (cache.get key).2.entries) : entry ∈ cache.entries := by
  unfold get at h
  split at h
  · rename_i held hlookup
    rcases List.mem_cons.mp h with rfl | hother
    · exact mem_of_get_eq_some (by rw [get, hlookup])
    · exact (List.mem_filter.mp hother).1
  · exact h

/-- Writing a key brings its entry and no other. -/
theorem eq_or_mem_of_mem_insert {cache : Recency κ ν} {key : κ} {value : ν} {entry : κ × ν}
    (h : entry ∈ (cache.insert key value).2.entries) :
    entry = (key, value) ∨ entry ∈ cache.entries := by
  have hwritten : entry ∈ (key, value) :: cache.others key := by
    simp only [insert] at h
    split at h
    · exact List.dropLast_subset _ h
    · exact h
  rcases List.mem_cons.mp hwritten with heq | hother
  · exact Or.inl heq
  · exact Or.inr (List.mem_filter.mp hother).1

theorem capacity_get (cache : Recency κ ν) (key : κ) :
    (cache.get key).2.capacity = cache.capacity := by
  unfold get
  split <;> rfl

theorem capacity_insert (cache : Recency κ ν) (key : κ) (value : ν) :
    (cache.insert key value).2.capacity = cache.capacity := by
  simp only [insert]
  split <;> rfl

/-! ## One use -/

/-- The keys that are held, the most recent one first. -/
def keys (cache : Recency κ ν) : List κ :=
  cache.entries.map Prod.fst

/-- There are no more entries than there is room for. -/
def Bounded (cache : Recency κ ν) : Prop :=
  cache.keys.length ≤ cache.capacity

/-- The keys after one of them was used. -/
def touch (capacity : Nat) (key : κ) (keys : List κ) : List κ :=
  (key :: keys.filter fun other => other ≠ key).take capacity

theorem keys_others (cache : Recency κ ν) (key : κ) :
    (cache.others key).map Prod.fst = cache.keys.filter fun other => other ≠ key := by
  rw [others, keys, List.filter_map]
  rfl

theorem get_eq_of_none {cache : Recency κ ν} {key : κ} (h : (cache.get key).1 = none) :
    (cache.get key).2 = cache := by
  unfold get at h ⊢
  split at h
  · simp at h
  · rfl

theorem isSome_get_iff {cache : Recency κ ν} {key : κ} :
    (cache.get key).1.isSome = true ↔ key ∈ cache.keys := by
  have hlookup : (cache.get key).1 = cache.entries.lookup key := by
    unfold get
    split
    · rename_i hheld
      rw [hheld]
    · rename_i hnone
      rw [hnone]
  rw [hlookup, keys]
  induction cache.entries with
  | nil => simp
  | cons entry entries ih =>
    rw [List.lookup_cons, List.map_cons, List.mem_cons]
    by_cases h : key = entry.1
    · simp [h]
    · have hne : (key == entry.1) = false := by simpa using h
      simp only [hne, h, false_or]
      exact ih

/-- Reading a key that is held uses it. -/
theorem keys_get {cache : Recency κ ν} (hbounded : cache.Bounded) {key : κ}
    (hheld : (cache.get key).1.isSome = true) :
    (cache.get key).2.keys = touch cache.capacity key cache.keys := by
  have hmem : key ∈ cache.keys := isSome_get_iff.mp hheld
  have hfewer : (cache.keys.filter fun other => other ≠ key).length < cache.keys.length := by
    rw [List.length_filter_lt_length_iff_exists]
    exact ⟨key, hmem, by simp⟩
  have hroom : (key :: cache.keys.filter fun other => other ≠ key).length ≤ cache.capacity :=
    Nat.le_trans (Nat.succ_le_of_lt hfewer) hbounded
  rw [touch, List.take_of_length_le hroom, ← keys_others]
  unfold get at hheld ⊢
  split at hheld
  · rfl
  · simp at hheld

/-- Writing a key uses it. -/
theorem keys_insert {cache : Recency κ ν} (hbounded : cache.Bounded) (key : κ) (value : ν) :
    (cache.insert key value).2.keys = touch cache.capacity key cache.keys := by
  have hkeys : ((key, value) :: cache.others key).map Prod.fst =
      key :: cache.keys.filter fun other => other ≠ key := by
    rw [List.map_cons, keys_others]
  have hlength : ((key, value) :: cache.others key).length ≤ cache.capacity + 1 := by
    have hfilter : (cache.others key).length ≤ cache.entries.length := List.length_filter_le _ _
    have hentries : cache.keys.length = cache.entries.length := List.length_map _
    have hroom : cache.keys.length ≤ cache.capacity := hbounded
    rw [List.length_cons]
    omega
  rw [touch, ← hkeys, ← List.map_take]
  simp only [insert]
  split
  · rename_i hfull
    have hone : ((key, value) :: cache.others key).length - 1 = cache.capacity := by omega
    rw [keys, List.dropLast_eq_take, hone]
  · rename_i hfree
    rw [keys, List.take_of_length_le (Nat.le_of_not_lt hfree)]

/-! ## Many uses -/

/-- The keys of a list of uses, each once, the one that was used last
first. -/
def latest (uses : List κ) : List κ :=
  uses.reverse.eraseDups

theorem nodup_eraseDups (keys : List κ) : keys.eraseDups.Nodup := by
  match keys with
  | [] => simp
  | key :: keys =>
    rw [List.eraseDups_cons, List.nodup_cons]
    exact ⟨by simp, nodup_eraseDups _⟩
termination_by keys.length
decreasing_by exact Nat.lt_succ_of_le (List.length_filter_le _ _)

theorem eraseDups_filter (keep : κ → Bool) (keys : List κ) :
    (keys.filter keep).eraseDups = keys.eraseDups.filter keep := by
  match keys with
  | [] => simp
  | key :: keys =>
    have hrest := eraseDups_filter keep (keys.filter fun other => !other == key)
    rw [List.eraseDups_cons]
    by_cases h : keep key = true
    · rw [List.filter_cons_of_pos h, List.filter_cons_of_pos h, List.eraseDups_cons, ← hrest,
        List.filter_filter, List.filter_filter]
      simp only [Bool.and_comm]
    · -- no copy of the key is kept, so it does not matter that they are dropped first
      have hnone : (keys.filter fun other => !other == key).filter keep = keys.filter keep := by
        rw [List.filter_filter]
        refine List.filter_congr fun other _ => ?_
        by_cases hother : other = key
        · simp [hother, h]
        · simp [hother]
      rw [List.filter_cons_of_neg h, List.filter_cons_of_neg h, ← hrest, hnone]
termination_by keys.length
decreasing_by exact Nat.lt_succ_of_le (List.length_filter_le _ _)

/-- There are as many latest keys as there are different keys. -/
theorem length_latest (uses : List κ) : (latest uses).length = uses.dedup.length := by
  have hnodup : (latest uses).Nodup := nodup_eraseDups _
  have hperm : (latest uses).Perm uses.dedup := by
    refine (List.perm_ext_iff_of_nodup hnodup (List.nodup_dedup uses)).mpr fun key => ?_
    rw [latest, List.mem_eraseDups, List.mem_reverse, List.mem_dedup]
  exact hperm.length_eq

/-- Dropping one key from the first keys leaves enough of them. -/
theorem take_filter_take {keys : List κ} (h : keys.Nodup) (key : κ) (count : Nat) :
    ((keys.take (count + 1)).filter fun other => other ≠ key).take count =
      (keys.filter fun other => other ≠ key).take count := by
  by_cases hshort : keys.length ≤ count + 1
  · rw [List.take_of_length_le hshort]
  · have hfirst : count ≤ ((keys.take (count + 1)).filter fun other => other ≠ key).length := by
      have herase : (keys.take (count + 1)).erase key =
          (keys.take (count + 1)).filter fun other => other ≠ key := by
        rw [(h.sublist (List.take_sublist _ _)).erase_eq_filter]
        exact List.filter_congr fun other _ => by rw [bne, decide_not]; rfl
      have hle : (keys.take (count + 1)).length - 1 ≤ ((keys.take (count + 1)).erase key).length :=
        List.le_length_erase
      rw [herase, List.length_take] at hle
      omega
    conv_rhs => rw [← List.take_append_drop (count + 1) keys, List.filter_append]
    rw [List.take_append_of_le_length hfirst]

/-- One more use of a key: among the keys that fit, it moves to the front. -/
theorem take_latest_concat {capacity : Nat} (hcapacity : 0 < capacity) (uses : List κ) (key : κ) :
    (latest (uses ++ [key])).take capacity = touch capacity key ((latest uses).take capacity) := by
  obtain ⟨count, rfl⟩ : ∃ count, capacity = count + 1 := ⟨capacity - 1, by omega⟩
  have hlatest : latest (uses ++ [key]) = key :: (latest uses).filter fun other => other ≠ key := by
    rw [latest, latest, List.reverse_append, List.reverse_singleton, List.singleton_append,
      List.eraseDups_cons, ← eraseDups_filter]
    congr 2
    exact List.filter_congr fun other _ => by rw [decide_not]; rfl
  have hnodup : (latest uses).Nodup := nodup_eraseDups _
  rw [hlatest, touch, List.take_succ_cons, List.take_succ_cons, take_filter_take hnodup]

end LintLayer.Recency
