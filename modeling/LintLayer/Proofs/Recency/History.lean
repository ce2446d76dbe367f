import LintLayer.Proofs.Recency.Keys
import Mathlib.Data.List.Induction
import Mathlib.Order.Bounds.Basic

/-!
# What a bounded cache holds, by its history

An event is an operation on a cache together with the answer, and the time of an
event is its place in the list of events.  From the events alone, `LastUse` says
when a key was used last, and `Stands` which value was written for a key and has
not been given up since.

* `ByRecency` says that keys stand in the order of their last uses.  Each use of a
  key keeps it (`ByRecency.touch`), since the key goes to the front.
* `insert_cases` opens a write once: there is room, or the last entry goes.
* `Tracks` ties a cache to its events, `tracks_perform` is the step that keeps it,
  and `tracks_history` the result for every sequence of operations.
-/

namespace LintLayer.Recency

variable {κ ν : Type}

/-! ## Events -/

/-- What can be done with a cache. -/
inductive Operation (κ ν : Type) where
  | get (key : κ)
  | insert (key : κ) (value : ν)
  | clear

/-- What was done with a cache, and its answer. -/
inductive Event (κ ν : Type) where
  | got (key : κ) (found : Option ν)
  | inserted (key : κ) (value : ν) (dropped : Option (κ × ν))
  | cleared

namespace Event

/-- The key was written, or read and found. -/
def Uses (key : κ) : Event κ ν → Prop
  | got other found => other = key ∧ found.isSome = true
  | inserted other _ _ => other = key
  | cleared => False

def Writes (key : κ) : Event κ ν → Prop
  | inserted other _ _ => other = key
  | _ => False

/-- The entry of the key was dropped to make room. -/
def Drops (key : κ) : Event κ ν → Prop
  | inserted _ _ dropped => dropped.map Prod.fst = some key
  | _ => False

theorem Uses.unique {event : Event κ ν} {key other : κ} (h : event.Uses key)
    (hother : event.Uses other) : other = key := by
  cases event with
  | got _ _ => exact hother.1.symm.trans h.1
  | inserted _ _ _ => exact hother.symm.trans h
  | cleared => exact absurd h id

end Event

/-- The times at which the key was used. -/
def useTimes (events : List (Event κ ν)) (key : κ) : Set Nat :=
  {time | ∃ event, events[time]? = some event ∧ event.Uses key}

/-- The key was used last at `time`. -/
def LastUse (events : List (Event κ ν)) (key : κ) (time : Nat) : Prop :=
  IsGreatest (useTimes events key) time

/-- The last write of the key gave it this value, and since then nothing was
cleared and the key was not dropped. -/
def Stands (events : List (Event κ ν)) (key : κ) (value : ν) : Prop :=
  ∃ before dropped after, events = before ++ .inserted key value dropped :: after ∧
    ∀ event ∈ after, ¬ event.Writes key ∧ event ≠ .cleared ∧ ¬ event.Drops key

section Concat

variable {events : List (Event κ ν)} {event : Event κ ν} {key : κ}

theorem LastUse.lt_length {time : Nat} (h : LastUse events key time) : time < events.length := by
  obtain ⟨found, hfound, -⟩ := h.1
  exact (List.getElem?_eq_some_iff.mp hfound).1

theorem lastUse_concat_of_uses (huses : event.Uses key) :
    LastUse (events ++ [event]) key events.length := by
  constructor
  · exact ⟨event, List.getElem?_concat_length, huses⟩
  · rintro time ⟨found, hfound, -⟩
    have hlt := (List.getElem?_eq_some_iff.mp hfound).1
    rw [List.length_append, List.length_singleton] at hlt
    omega

/-- An event that does not use the key leaves its last use as it was. -/
theorem lastUse_concat_of_not (hnot : ¬ event.Uses key) {time : Nat} :
    LastUse (events ++ [event]) key time ↔ LastUse events key time := by
  have hsame : useTimes (events ++ [event]) key = useTimes events key := by
    ext time
    constructor
    · rintro ⟨found, hfound, huses⟩
      rcases Nat.lt_or_ge time events.length with hlt | hge
      · rw [List.getElem?_append_left hlt] at hfound
        exact ⟨found, hfound, huses⟩
      · -- behind the earlier events there is only the new one
        rw [List.getElem?_append_right hge] at hfound
        obtain rfl := List.mem_singleton.mp (List.mem_of_getElem? hfound)
        exact absurd huses hnot
    · rintro ⟨found, hfound, huses⟩
      refine ⟨found, ?_, huses⟩
      rw [List.getElem?_append_left (List.getElem?_eq_some_iff.mp hfound).1]
      exact hfound
  rw [LastUse, LastUse, hsame]

theorem stands_concat {value : ν} :
    Stands (events ++ [event]) key value ↔
      (∃ dropped, event = .inserted key value dropped) ∨
        Stands events key value ∧ ¬ event.Writes key ∧ event ≠ .cleared ∧
          ¬ event.Drops key := by
  constructor
  · rintro ⟨before, dropped, after, hevents, hafter⟩
    rcases List.eq_nil_or_concat' after with rfl | ⟨after, last, rfl⟩
    · left
      have hlast := (List.append_inj' hevents rfl).2
      exact ⟨dropped, List.singleton_inj.mp hlast⟩
    · right
      rw [← List.cons_append, ← List.append_assoc] at hevents
      obtain ⟨rfl, hlast⟩ := List.append_inj' hevents rfl
      obtain rfl := List.singleton_inj.mp hlast
      refine ⟨⟨before, dropped, after, rfl, fun other hother => ?_⟩, ?_⟩
      · exact hafter other (List.mem_append_left _ hother)
      · exact hafter event (List.mem_append_right _ (List.mem_singleton_self _))
  · rintro (⟨dropped, rfl⟩ | ⟨⟨before, dropped, after, rfl, hafter⟩, hlast⟩)
    · exact ⟨events, dropped, [], rfl, by simp⟩
    · refine ⟨before, dropped, after ++ [event], by simp, fun other hother => ?_⟩
      rcases List.mem_append.mp hother with hother | hother
      · exact hafter other hother
      · rw [List.mem_singleton.mp hother]
        exact hlast

end Concat

/-! ## Keys in the order of their last uses -/

/-- The keys are different, and each was used after all that stand behind it. -/
structure ByRecency (events : List (Event κ ν)) (keys : List κ) : Prop where
  nodup : keys.Nodup
  used : ∀ key ∈ keys, ∃ time, LastUse events key time
  ordered : keys.Pairwise fun key older =>
    ∀ time past, LastUse events key time → LastUse events older past → past < time

namespace ByRecency

variable {events : List (Event κ ν)} {event : Event κ ν} {keys : List κ} {key : κ}

theorem sublist (h : ByRecency events keys) {fewer : List κ} (hfewer : fewer.Sublist keys) :
    ByRecency events fewer where
  nodup := h.nodup.sublist hfewer
  used other hother := h.used other (hfewer.subset hother)
  ordered := h.ordered.sublist hfewer

/-- An event that uses none of the keys. -/
theorem concat_of_not (h : ByRecency events keys) (hnot : ∀ other ∈ keys, ¬ event.Uses other) :
    ByRecency (events ++ [event]) keys where
  nodup := h.nodup
  used other hother := by
    obtain ⟨time, htime⟩ := h.used other hother
    exact ⟨time, (lastUse_concat_of_not (hnot other hother)).mpr htime⟩
  ordered := by
    refine h.ordered.imp_of_mem fun {key older} hkey holder hbefore time past htime hpast => ?_
    exact hbefore time past ((lastUse_concat_of_not (hnot key hkey)).mp htime)
      ((lastUse_concat_of_not (hnot older holder)).mp hpast)

/-- A key that is used goes to the front. -/
theorem cons (h : ByRecency events keys) (huses : event.Uses key) (hkey : key ∉ keys) :
    ByRecency (events ++ [event]) (key :: keys) := by
  have hnow : LastUse (events ++ [event]) key events.length := lastUse_concat_of_uses huses
  have hothers : ∀ other ∈ keys, ¬ event.Uses other := fun other hother hused =>
    hkey (huses.unique hused ▸ hother)
  have hrest := h.concat_of_not hothers
  refine ⟨List.nodup_cons.mpr ⟨hkey, h.nodup⟩, ?_, List.pairwise_cons.mpr ⟨?_, hrest.ordered⟩⟩
  · exact List.forall_mem_cons.mpr ⟨⟨events.length, hnow⟩, hrest.used⟩
  · intro older holder time past htime hpast
    rw [htime.unique hnow]
    exact ((lastUse_concat_of_not (hothers older holder)).mp hpast).lt_length

theorem touch [DecidableEq κ] (h : ByRecency events keys) (huses : event.Uses key)
    (capacity : Nat) : ByRecency (events ++ [event]) (touch capacity key keys) := by
  apply sublist _ (List.take_sublist _ _)
  apply (h.sublist List.filter_sublist).cons huses
  simp

end ByRecency

/-! ## Entries -/

section Entries

variable [DecidableEq κ] {cache : Recency κ ν} {key : κ}

/-- A key has one entry, and reading finds it. -/
theorem get_eq_some_iff (hnodup : cache.keys.Nodup) {value : ν} :
    (cache.get key).1 = some value ↔ (key, value) ∈ cache.entries := by
  constructor
  · exact mem_of_get_eq_some
  · intro hmem
    have hheld : (cache.get key).1.isSome = true :=
      isSome_get_iff.mpr (List.mem_map.mpr ⟨(key, value), hmem, rfl⟩)
    obtain ⟨found, hfound⟩ := Option.isSome_iff_exists.mp hheld
    have hsame := List.inj_on_of_nodup_map hnodup (mem_of_get_eq_some hfound) hmem rfl
    rw [hfound, (Prod.mk.inj hsame).2]

/-- Reading a key changes no entry. -/
theorem mem_get_iff (hnodup : cache.keys.Nodup) {entry : κ × ν} :
    entry ∈ (cache.get key).2.entries ↔ entry ∈ cache.entries := by
  constructor
  · exact mem_of_mem_get
  · intro hmem
    unfold get
    split
    · rename_i value hlookup
      by_cases hkey : entry.1 = key
      · have hheld : (key, value) ∈ cache.entries := mem_of_get_eq_some (by rw [get, hlookup])
        rw [List.inj_on_of_nodup_map hnodup hmem hheld hkey]
        exact List.mem_cons_self
      · apply List.mem_cons_of_mem
        exact List.mem_filter.mpr ⟨hmem, by simpa using hkey⟩
    · exact hmem

theorem mem_others_iff {entry : κ × ν} :
    entry ∈ cache.others key ↔ entry ∈ cache.entries ∧ entry.1 ≠ key := by
  rw [others, List.mem_filter, decide_eq_true_eq]

/-- A write finds room, or the last of the other entries goes. -/
theorem insert_cases (hroom : 1 ≤ cache.capacity) (key : κ) (value : ν) :
    (cache.others key).length < cache.capacity ∧ (cache.insert key value).1 = none ∧
        (cache.insert key value).2.entries = (key, value) :: cache.others key ∨
      ∃ kept entry, cache.others key = kept ++ [entry] ∧
        cache.capacity ≤ (cache.others key).length ∧ (cache.insert key value).1 = some entry ∧
        (cache.insert key value).2.entries = (key, value) :: kept := by
  simp only [insert, List.length_cons]
  split
  · rename_i hfull
    right
    rcases List.eq_nil_or_concat' (cache.others key) with hnone | ⟨kept, entry, hothers⟩
    · rw [hnone, List.length_nil] at hfull
      omega
    · refine ⟨kept, entry, hothers, by omega, ?_, ?_⟩
      · rw [hothers, ← List.cons_append, List.getLast?_concat]
      · rw [hothers, ← List.cons_append, List.dropLast_concat]
  · left
    exact ⟨by omega, rfl, rfl⟩

/-- A write changes its own entry, and takes away the one that is dropped. -/
theorem mem_insert_iff (hroom : 1 ≤ cache.capacity) (hnodup : cache.keys.Nodup) (value : ν)
    {entry : κ × ν} :
    entry ∈ (cache.insert key value).2.entries ↔
      entry = (key, value) ∨ (entry ∈ cache.entries ∧ entry.1 ≠ key) ∧
        (cache.insert key value).1.map Prod.fst ≠ some entry.1 := by
  rcases insert_cases hroom key value with ⟨-, hnone, hentries⟩ | ⟨kept, last, hothers, -, hsome,
    hentries⟩
  · rw [hentries, hnone, List.mem_cons, mem_others_iff]
    simp
  · have hlast : last.1 ∉ kept.map Prod.fst := by
      have hkeys : ((cache.others key).map Prod.fst).Nodup := by
        rw [keys_others]
        exact hnodup.filter _
      rw [hothers, List.map_append, List.map_singleton, List.nodup_append] at hkeys
      exact fun hmem => hkeys.2.2 _ hmem _ (List.mem_singleton_self _) rfl
    rw [hentries, hsome, List.mem_cons, ← mem_others_iff, hothers, List.mem_append,
      List.mem_singleton, Option.map_some]
    apply or_congr Iff.rfl
    constructor
    · intro hmem
      refine ⟨.inl hmem, fun hsame => hlast ?_⟩
      rw [Option.some.inj hsame]
      exact List.mem_map_of_mem hmem
    · rintro ⟨hmem | rfl, hne⟩
      · exact hmem
      · exact absurd rfl hne

theorem others_of_notMem (hkey : key ∉ cache.keys) : cache.others key = cache.entries := by
  apply List.filter_eq_self.mpr
  intro entry hentry
  rw [decide_eq_true_eq]
  rintro rfl
  exact hkey (List.mem_map_of_mem hentry)

theorem length_others_lt (hkey : key ∈ cache.keys) :
    (cache.others key).length < cache.entries.length := by
  obtain ⟨entry, hentry, rfl⟩ := List.mem_map.mp hkey
  apply List.length_filter_lt_length_iff_exists.mpr
  exact ⟨entry, hentry, by simp⟩

/-- An entry is dropped when the key is new and the cache is full.  It is the last
one. -/
theorem insert_eq_some_iff (hroom : 1 ≤ cache.capacity) (hbounded : cache.Bounded) (value : ν)
    {entry : κ × ν} :
    (cache.insert key value).1 = some entry ↔
      key ∉ cache.keys ∧ cache.size = cache.capacity ∧ cache.entries.getLast? = some entry := by
  have hsize : cache.entries.length ≤ cache.capacity := by
    rw [Bounded, keys, List.length_map] at hbounded
    exact hbounded
  rw [size]
  rcases insert_cases hroom key value with
    ⟨hfree, hnone, -⟩ | ⟨kept, last, hothers, hfull, hsome, -⟩
  · rw [hnone]
    constructor
    · intro h
      simp at h
    · rintro ⟨hnew, hsame, -⟩
      rw [others_of_notMem hnew] at hfree
      omega
  · have hnew : key ∉ cache.keys := by
      intro hheld
      have hlt := length_others_lt hheld
      omega
    rw [others_of_notMem hnew] at hothers hfull
    rw [hsome, hothers, List.getLast?_concat]
    constructor
    · intro h
      exact ⟨hnew, by rw [← hothers]; omega, h⟩
    · intro h
      exact h.2.2

end Entries

/-! ## A cache and its events -/

/-- The cache holds what the events leave, in the order in which it was used. -/
structure Tracks (events : List (Event κ ν)) (cache : Recency κ ν) : Prop where
  room : 1 ≤ cache.capacity
  bounded : cache.Bounded
  byRecency : ByRecency events cache.keys
  stands : ∀ key value, (key, value) ∈ cache.entries ↔ Stands events key value

section Tracks

variable {events : List (Event κ ν)} {cache : Recency κ ν}

theorem tracks_empty (capacity : Nat) : Tracks [] (empty capacity : Recency κ ν) where
  room := Nat.le_max_right capacity 1
  bounded := Nat.zero_le _
  byRecency := ⟨List.nodup_nil, by simp [keys, empty], List.Pairwise.nil⟩
  stands key value := by
    constructor
    · intro h
      simp [empty] at h
    · rintro ⟨before, dropped, after, hevents, -⟩
      simp at hevents

theorem Tracks.clear (h : Tracks events cache) : Tracks (events ++ [.cleared]) cache.clear where
  room := h.room
  bounded := Nat.zero_le _
  byRecency := ⟨List.nodup_nil, by simp [keys, Recency.clear], List.Pairwise.nil⟩
  stands key value := by
    rw [stands_concat]
    simp [Recency.clear]

variable [DecidableEq κ]

theorem Tracks.get (h : Tracks events cache) (key : κ) :
    Tracks (events ++ [.got key (cache.get key).1]) (cache.get key).2 := by
  have hnodup := h.byRecency.nodup
  have hstands : ∀ other value, (other, value) ∈ (cache.get key).2.entries ↔
      Stands (events ++ [.got key (cache.get key).1]) other value := by
    intro other value
    rw [mem_get_iff hnodup, h.stands, stands_concat]
    simp [Event.Writes, Event.Drops]
  cases hfound : (cache.get key).1 with
  | none =>
    rw [hfound, get_eq_of_none hfound] at hstands
    rw [get_eq_of_none hfound]
    refine ⟨h.room, h.bounded, h.byRecency.concat_of_not ?_, hstands⟩
    rintro other - ⟨-, hsome⟩
    simp at hsome
  | some value =>
    rw [hfound] at hstands
    have hheld : (cache.get key).1.isSome = true := by rw [hfound]; rfl
    have hkeys := keys_get h.bounded hheld
    refine ⟨?_, ?_, ?_, hstands⟩
    · rw [capacity_get]
      exact h.room
    · rw [Bounded, hkeys, capacity_get]
      exact List.length_take_le _ _
    · rw [hkeys]
      exact h.byRecency.touch (show Event.Uses key (.got key (some value)) from ⟨rfl, rfl⟩) _

theorem Tracks.insert (h : Tracks events cache) (key : κ) (value : ν) :
    Tracks (events ++ [.inserted key value (cache.insert key value).1])
      (cache.insert key value).2 := by
  have hkeys := keys_insert h.bounded key value
  refine ⟨?_, ?_, ?_, fun other held => ?_⟩
  · rw [capacity_insert]
    exact h.room
  · rw [Bounded, hkeys, capacity_insert]
    exact List.length_take_le _ _
  · rw [hkeys]
    exact h.byRecency.touch (show Event.Uses key (.inserted key value _) from rfl) _
  · rw [mem_insert_iff h.room h.byRecency.nodup, h.stands, stands_concat]
    simp [Event.Writes, Event.Drops, Prod.mk.injEq, eq_comm, and_assoc]

/-- The event of an operation, and the cache after it. -/
def perform (cache : Recency κ ν) : Operation κ ν → Event κ ν × Recency κ ν
  | .get key => (.got key (cache.get key).1, (cache.get key).2)
  | .insert key value =>
    (.inserted key value (cache.insert key value).1, (cache.insert key value).2)
  | .clear => (.cleared, cache.clear)

/-- The events of operations on a new cache, the latest one last, and the cache after
them. -/
def history (capacity : Nat) (operations : List (Operation κ ν)) :
    List (Event κ ν) × Recency κ ν :=
  operations.foldl
    (fun done operation =>
      let next := done.2.perform operation
      (done.1 ++ [next.1], next.2))
    ([], empty capacity)

/-- Each operation keeps the cache and its events together. -/
theorem tracks_perform (h : Tracks events cache) (operation : Operation κ ν) :
    Tracks (events ++ [(cache.perform operation).1]) (cache.perform operation).2 := by
  cases operation with
  | get key => exact h.get key
  | insert key value => exact h.insert key value
  | clear => exact h.clear

theorem capacity_perform (cache : Recency κ ν) (operation : Operation κ ν) :
    (cache.perform operation).2.capacity = cache.capacity := by
  cases operation with
  | get key => exact capacity_get cache key
  | insert key value => exact capacity_insert cache key value
  | clear => rfl

theorem history_concat (capacity : Nat) (operations : List (Operation κ ν))
    (operation : Operation κ ν) :
    history capacity (operations ++ [operation]) =
      let done := history capacity operations
      (done.1 ++ [(done.2.perform operation).1], (done.2.perform operation).2) :=
  List.foldl_concat _ _ _ _

theorem tracks_history (capacity : Nat) (operations : List (Operation κ ν)) :
    Tracks (history capacity operations).1 (history capacity operations).2 := by
  induction operations using List.reverseRecOn with
  | nil => exact tracks_empty capacity
  | append_singleton operations operation ih =>
    rw [history_concat]
    exact tracks_perform ih operation

theorem capacity_history (capacity : Nat) (operations : List (Operation κ ν)) :
    (history capacity operations).2.capacity = max capacity 1 := by
  induction operations using List.reverseRecOn with
  | nil => rfl
  | append_singleton operations operation ih =>
    rw [history_concat]
    exact (capacity_perform _ operation).trans ih

end Tracks

/-! ## What the history says about the cache -/

section Answers

variable {events : List (Event κ ν)} {cache : Recency κ ν}

/-- The last entry was used before all others. -/
theorem Tracks.oldest (h : Tracks events cache) {entry other : κ × ν}
    (hlast : cache.entries.getLast? = some entry) (hother : other ∈ cache.entries)
    (hne : other ≠ entry) {time past : Nat} (htime : LastUse events other.1 time)
    (hpast : LastUse events entry.1 past) : past < time := by
  obtain ⟨kept, hentries⟩ := List.getLast?_eq_some_iff.mp hlast
  have hordered := h.byRecency.ordered
  rw [keys, List.pairwise_map, hentries, List.pairwise_append] at hordered
  rw [hentries, List.mem_append, List.mem_singleton] at hother
  rcases hother with hkept | hsame
  · exact hordered.2.2 other hkept entry (List.mem_singleton_self entry) time past htime hpast
  · exact absurd hsame hne

variable [DecidableEq κ]

theorem Tracks.isSome_insert_iff (h : Tracks events cache) (key : κ) (value : ν) :
    (cache.insert key value).1.isSome = true ↔
      key ∉ cache.keys ∧ cache.size = cache.capacity := by
  rw [Option.isSome_iff_exists]
  constructor
  · rintro ⟨entry, hentry⟩
    obtain ⟨hnew, hfull, -⟩ := (insert_eq_some_iff h.room h.bounded value).mp hentry
    exact ⟨hnew, hfull⟩
  · rintro ⟨hnew, hfull⟩
    have hroom := h.room
    have hentries : cache.entries ≠ [] := by
      apply List.length_pos_iff.mp
      rw [size] at hfull
      omega
    exact ⟨_, (insert_eq_some_iff h.room h.bounded value).mpr
      ⟨hnew, hfull, List.getLast?_eq_some_getLast hentries⟩⟩

theorem Tracks.get_get (h : Tracks events cache) (key other : κ) :
    ((cache.get key).2.get other).1 = (cache.get other).1 := by
  apply Option.ext
  intro value
  rw [get_eq_some_iff (h.get key).byRecency.nodup, get_eq_some_iff h.byRecency.nodup,
    mem_get_iff h.byRecency.nodup]

/-- Reading after a write: the key has its new value, the key that was dropped has none,
and all others are as before. -/
theorem Tracks.get_insert (h : Tracks events cache) (key : κ) (value : ν) (other : κ) :
    ((cache.insert key value).2.get other).1 =
      if other = key then some value
      else if (cache.insert key value).1.map Prod.fst = some other then none
      else (cache.get other).1 := by
  have hnodup := h.byRecency.nodup
  apply Option.ext
  intro held
  rw [get_eq_some_iff (h.insert key value).byRecency.nodup, mem_insert_iff h.room hnodup]
  by_cases hkey : other = key
  · rw [if_pos hkey]
    simp [hkey, eq_comm]
  · rw [if_neg hkey]
    by_cases hdropped : (cache.insert key value).1.map Prod.fst = some other
    · rw [if_pos hdropped]
      simp [hkey, hdropped]
    · rw [if_neg hdropped, get_eq_some_iff hnodup]
      simp [hkey, hdropped]

end Answers

/-- After any operations on a new cache, its keys are different, there are no more than
there is room for, and they stand in the order of their last uses, the latest first.
Reading a key gives the value of its last write, unless the cache was cleared or the
key dropped since then.  A write drops an entry when its key is new and the cache is
full, and this is the entry that was not used for the longest time.  Nothing changes
for the other keys. -/
theorem held_by_history [DecidableEq κ] (capacity : Nat) (operations : List (Operation κ ν)) :
    let events := (history capacity operations).1
    let cache := (history capacity operations).2
    cache.keys.Nodup ∧ cache.size ≤ max capacity 1 ∧
      (∀ entry ∈ cache.entries, ∃ time, LastUse events entry.1 time) ∧
      (cache.entries.Pairwise fun entry older => ∀ time past,
        LastUse events entry.1 time → LastUse events older.1 past → past < time) ∧
      (∀ key value, (cache.get key).1 = some value ↔ Stands events key value) ∧
      (∀ key value, (cache.insert key value).1.isSome = true ↔
        key ∉ cache.keys ∧ cache.size = max capacity 1) ∧
      (∀ key value entry, (cache.insert key value).1 = some entry →
        entry ∈ cache.entries ∧ ∀ other ∈ cache.entries, other ≠ entry → ∀ time past,
          LastUse events other.1 time → LastUse events entry.1 past → past < time) ∧
      (∀ key other, ((cache.get key).2.get other).1 = (cache.get other).1) ∧
      (∀ key value other, ((cache.insert key value).2.get other).1 =
        if other = key then some value
        else if (cache.insert key value).1.map Prod.fst = some other then none
        else (cache.get other).1) ∧
      ∀ other, (cache.clear.get other).1 = none := by
  intro events cache
  have htracks : Tracks events cache := tracks_history capacity operations
  have hcapacity : cache.capacity = max capacity 1 := capacity_history capacity operations
  have hnodup := htracks.byRecency.nodup
  refine ⟨hnodup, ?_, fun entry hentry => ?_, ?_, fun key value => ?_, fun key value => ?_,
    fun key value entry hdropped => ?_, htracks.get_get, htracks.get_insert, fun other => rfl⟩
  · have hbounded := htracks.bounded
    rw [Bounded, keys, List.length_map, hcapacity] at hbounded
    exact hbounded
  · exact htracks.byRecency.used _ (List.mem_map_of_mem hentry)
  · exact List.pairwise_map.mp htracks.byRecency.ordered
  · rw [get_eq_some_iff hnodup, htracks.stands]
  · rw [htracks.isSome_insert_iff, hcapacity]
  · obtain ⟨-, -, hlast⟩ := (insert_eq_some_iff htracks.room htracks.bounded value).mp hdropped
    exact ⟨List.mem_of_getLast? hlast, fun other hother hne time past =>
      htracks.oldest hlast hother hne⟩

/-- Of two keys the one that was written first is read again, so a third key drops the
other one. -/
theorem held_by_history_pair :
    let operations : List (Operation Nat Nat) := [.insert 1 10, .insert 2 20, .get 1]
    let events := (history 2 operations).1
    let cache := (history 2 operations).2
    (cache.insert 3 30).1 = some (2, 20) ∧ (1, 10) ∈ cache.entries ∧
      (∃ time past, LastUse events 1 time ∧ LastUse events 2 past ∧ past < time) ∧
      Stands events 1 10 ∧ ((cache.insert 3 30).2.get 2).1 = none := by
  intro operations events cache
  obtain ⟨-, -, hused, -, hread, -, hdrops, -, hwrite, -⟩ := held_by_history 2 operations
  have hdropped : (cache.insert 3 30).1 = some (2, 20) := by decide
  have hfirst : (1, 10) ∈ cache.entries := by decide
  obtain ⟨hsecond, holdest⟩ := hdrops 3 30 (2, 20) hdropped
  obtain ⟨time, htime⟩ := hused _ hfirst
  obtain ⟨past, hpast⟩ := hused _ hsecond
  refine ⟨hdropped, hfirst, ⟨time, past, htime, hpast, ?_⟩, (hread 1 10).mp (by decide), ?_⟩
  · exact holdest _ hfirst (by decide) time past htime hpast
  · exact (hwrite 3 30 2).trans (by decide)

end LintLayer.Recency
