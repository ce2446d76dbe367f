import LintLayer.Json.Basic
import Mathlib.Data.String.Basic
import Mathlib.Data.List.Basic

/-!
# Canonical JSON values

A value is canonical if every part of it can be read and the keys of every
object ascend, so that no key is repeated.  Sorting gives a canonical value
(`canonical_sorted`) and changes none (`sorted_of_canonical`).

The proofs follow the value: each statement has a form for a value, for a list
of items and for the members of an object.
-/

namespace LintLayer.Json

mutual

/-- The parts of the value can be read, and the keys of objects ascend. -/
def Canonical : Json → Prop
  | .arr items => AllCanonical items
  | .obj members => MembersCanonical members ∧ members.Pairwise fun a b => a.1 < b.1
  | .unreadable => False
  | _ => True

/-- All items are canonical. -/
def AllCanonical : List Json → Prop
  | [] => True
  | item :: items => Canonical item ∧ AllCanonical items

/-- The values of all members are canonical. -/
def MembersCanonical : List (String × Json) → Prop
  | [] => True
  | (_, value) :: members => Canonical value ∧ MembersCanonical members

end

/-! ## A canonical value stays as it is -/

mutual

theorem isReadable_of_canonical {value : Json} (h : value.Canonical) : value.isReadable = true := by
  cases value with
  | arr items => exact allReadable_of_canonical h
  | obj members => exact membersReadable_of_canonical h.1
  | unreadable => exact h.elim
  | _ => rfl

theorem allReadable_of_canonical {items : List Json} (h : AllCanonical items) :
    allReadable items = true := by
  cases items with
  | nil => rfl
  | cons item items =>
    rw [allReadable, isReadable_of_canonical h.1, allReadable_of_canonical h.2, Bool.and_self]

theorem membersReadable_of_canonical {members : List (String × Json)}
    (h : MembersCanonical members) : membersReadable members = true := by
  cases members with
  | nil => rfl
  | cons member members =>
    rw [membersReadable, isReadable_of_canonical h.1, membersReadable_of_canonical h.2,
      Bool.and_self]

end

/-- A key behind all others goes to the end. -/
theorem insertMember_of_lt {done : List (String × Json)} {key : String}
    (h : ∀ member ∈ done, member.1 < key) (value : Json) :
    insertMember key value done = done ++ [(key, value)] := by
  induction done with
  | nil => rfl
  | cons member done ih =>
    have hlt : member.1 < key := h member (by simp)
    rw [insertMember, if_neg (lt_asymm hlt), if_neg (ne_of_gt hlt),
      ih fun other hother => h other (by simp [hother]), List.cons_append]

mutual

theorem sorted_of_canonical {value : Json} (h : value.Canonical) : value.sorted = value := by
  cases value with
  | arr items => rw [sorted, sortedItems_of_canonical h]
  | obj members => rw [sorted, sortedMembers_of_canonical [] h.1 h.2, List.nil_append]
  | unreadable => exact h.elim
  | _ => rfl

theorem sortedItems_of_canonical {items : List Json} (h : AllCanonical items) :
    sortedItems items = items := by
  cases items with
  | nil => rfl
  | cons item items =>
    rw [sortedItems, sorted_of_canonical h.1, sortedItems_of_canonical h.2]

theorem sortedMembers_of_canonical (done : List (String × Json)) {members : List (String × Json)}
    (h : MembersCanonical members)
    (hascending : (done ++ members).Pairwise fun a b => a.1 < b.1) :
    sortedMembers done members = done ++ members := by
  cases members with
  | nil => rw [sortedMembers, List.append_nil]
  | cons member members =>
    have hlast : ∀ other ∈ done, other.1 < member.1 := fun other hother =>
      (List.pairwise_append.mp hascending).2.2 other hother member (by simp)
    rw [List.append_cons] at hascending
    rw [sortedMembers, sorted_of_canonical h.1, insertMember_of_lt hlast,
      sortedMembers_of_canonical _ h.2 hascending, ← List.append_cons]

end

/-! ## Sorting makes a value canonical -/

theorem eq_or_mem_of_mem_insertMember {done : List (String × Json)} {key : String} {value : Json}
    {member : String × Json} (h : member ∈ insertMember key value done) :
    member = (key, value) ∨ member ∈ done := by
  induction done with
  | nil => exact Or.inl (List.mem_singleton.mp h)
  | cons other done ih =>
    rw [insertMember] at h
    grind

theorem pairwise_insertMember {done : List (String × Json)}
    (h : done.Pairwise fun a b => a.1 < b.1) (key : String) (value : Json) :
    (insertMember key value done).Pairwise fun a b => a.1 < b.1 := by
  induction done with
  | nil => exact List.pairwise_singleton _ _
  | cons other done ih =>
    obtain ⟨hother, hdone⟩ := List.pairwise_cons.mp h
    rw [insertMember]
    split
    · rename_i hlt
      refine List.pairwise_cons.mpr ⟨fun member hmember => ?_, h⟩
      rcases List.mem_cons.mp hmember with rfl | hmember
      · exact hlt
      · exact lt_trans hlt (hother member hmember)
    · rename_i hle
      split
      · rename_i heq
        exact List.pairwise_cons.mpr ⟨fun member hmember => heq ▸ hother member hmember, hdone⟩
      · rename_i hne
        refine List.pairwise_cons.mpr ⟨fun member hmember => ?_, ih hdone⟩
        rcases eq_or_mem_of_mem_insertMember hmember with rfl | hmember
        · exact lt_of_le_of_ne (not_lt.mp hle) (Ne.symm hne)
        · exact hother member hmember

theorem membersCanonical_insertMember {done : List (String × Json)} {value : Json}
    (h : MembersCanonical done) (hvalue : value.Canonical) (key : String) :
    MembersCanonical (insertMember key value done) := by
  induction done with
  | nil => exact ⟨hvalue, h⟩
  | cons other done ih =>
    rw [insertMember]
    split
    · exact ⟨hvalue, h⟩
    · split
      · exact ⟨hvalue, h.2⟩
      · exact ⟨h.1, ih h.2⟩

mutual

theorem canonical_sorted {value : Json} (h : value.isReadable = true) : value.sorted.Canonical := by
  cases value with
  | arr items => exact allCanonical_sortedItems h
  | obj members => exact membersCanonical_sortedMembers [] trivial List.Pairwise.nil h
  | unreadable => cases h
  | _ => trivial

theorem allCanonical_sortedItems {items : List Json} (h : allReadable items = true) :
    AllCanonical (sortedItems items) := by
  cases items with
  | nil => trivial
  | cons item items =>
    rw [allReadable, Bool.and_eq_true] at h
    exact ⟨canonical_sorted h.1, allCanonical_sortedItems h.2⟩

theorem membersCanonical_sortedMembers (done : List (String × Json))
    {members : List (String × Json)} (hdone : MembersCanonical done)
    (hascending : done.Pairwise fun a b => a.1 < b.1)
    (h : membersReadable members = true) :
    MembersCanonical (sortedMembers done members) ∧
      (sortedMembers done members).Pairwise fun a b => a.1 < b.1 := by
  cases members with
  | nil => exact ⟨hdone, hascending⟩
  | cons member members =>
    rw [membersReadable, Bool.and_eq_true] at h
    rw [sortedMembers]
    exact membersCanonical_sortedMembers _
      (membersCanonical_insertMember hdone (canonical_sorted h.1) member.1)
      (pairwise_insertMember hascending member.1 _) h.2

end

end LintLayer.Json
