import Mathlib.Data.List.Basic

/-!
# Stable sorting

A merge sort keeps the order of the items that tie.  Here ties are items that
are at or before each other in the order `le`.

* `filter_mergeSort` reads the order inside a class of ties.
* `pairwise_mergeSort_of_ties` carries a fact about listed ties over to the
  sorted list.
* `eq_of_sorted_of_ties` says that nothing else is left open: a sorted list is
  known from its classes of ties.
* `mergeSort_eq_append` cuts the sorted list in two.
-/

namespace LintLayer.Sort

variable {α : Type} {le : α → α → Bool}

/-- Items of which each is at or before the other. -/
def tied (le : α → α → Bool) (a b : α) : Bool :=
  le a b && le b a

/-- Items that tie stay in the order in which they are listed. -/
theorem filter_mergeSort (htrans : ∀ a b c, le a b = true → le b c = true → le a c = true)
    (htotal : ∀ a b, (le a b || le b a) = true) {p : α → Bool}
    (hties : ∀ a b, p a = true → p b = true → le a b = true) (items : List α) :
    (items.mergeSort le).filter p = items.filter p := by
  have hlisted : (items.filter p).Pairwise fun a b => le a b = true := by
    refine List.pairwise_of_forall_mem_list fun a ha b hb => ?_
    exact hties a b (List.mem_filter.mp ha).2 (List.mem_filter.mp hb).2
  have hsublist := (List.sublist_mergeSort htrans htotal hlisted List.filter_sublist).filter p
  rw [List.filter_eq_self.mpr fun _ h => (List.mem_filter.mp h).2] at hsublist
  have hlength := ((List.mergeSort_perm items le).filter p).length_eq
  exact (hsublist.eq_of_length hlength.symm).symm

/-- What holds of any two ties, the one that is listed first named first,
holds of them in the sorted list. -/
theorem pairwise_mergeSort_of_ties
    (htrans : ∀ a b c, le a b = true → le b c = true → le a c = true)
    (htotal : ∀ a b, (le a b || le b a) = true) {R : α → α → Prop} {items : List α}
    (hties : items.Pairwise fun a b => tied le a b = true → R a b) :
    (items.mergeSort le).Pairwise fun a b => le a b = true ∧ (le b a = true → R a b) := by
  induction items with
  | nil => simp
  | cons first items ih =>
    obtain ⟨hfirst, hitems⟩ := List.pairwise_cons.mp hties
    obtain ⟨before, after, hsorted, hrest, hbefore⟩ := List.mergeSort_cons htrans htotal first items
    have hle := List.pairwise_mergeSort htrans htotal (first :: items)
    have hih := ih hitems
    rw [hsorted] at hle ⊢
    rw [hrest, List.pairwise_append] at hih
    obtain ⟨hihBefore, hihAfter, hihCross⟩ := hih
    obtain ⟨-, hleAfter, hleCross⟩ := List.pairwise_append.mp hle
    refine List.pairwise_append.mpr ⟨hihBefore, List.pairwise_cons.mpr ⟨?_, hihAfter⟩, ?_⟩
    · intro item hitem
      have hmem : item ∈ items :=
        (List.mergeSort_perm items le).mem_iff.mp (by simp [hrest, hitem])
      have hfirstLe := (List.pairwise_cons.mp hleAfter).1 item hitem
      exact ⟨hfirstLe, fun hback => hfirst item hmem (by simp [tied, hfirstLe, hback])⟩
    · intro earlier hearlier item hitem
      rcases List.mem_cons.mp hitem with rfl | hafter
      · -- a new item goes in front of all its ties, so nothing before it ties with it
        have hstrict := hbefore earlier hearlier
        exact ⟨hleCross earlier hearlier item (by simp), fun hback => by simp [hback] at hstrict⟩
      · exact hihCross earlier hearlier item hafter

theorem tied_self (htotal : ∀ a b, (le a b || le b a) = true) (item : α) :
    tied le item item = true := by
  simpa [tied] using htotal item item

/-- Lists with the same classes of ties have the same members. -/
theorem mem_iff_of_ties (htotal : ∀ a b, (le a b || le b a) = true) {first second : List α}
    (hties : ∀ item, first.filter (tied le item) = second.filter (tied le item)) (item : α) :
    item ∈ first ↔ item ∈ second := by
  have h := congrArg (item ∈ ·) (hties item)
  simpa [List.mem_filter, tied_self htotal] using h

/-- Two sorted lists with the same classes of ties are equal. -/
theorem eq_of_sorted_of_ties (htotal : ∀ a b, (le a b || le b a) = true) {first second : List α}
    (hfirst : first.Pairwise fun a b => le a b = true)
    (hsecond : second.Pairwise fun a b => le a b = true)
    (hties : ∀ item, first.filter (tied le item) = second.filter (tied le item)) :
    first = second := by
  have hself : ∀ item, le item item = true := fun item => by simpa using htotal item item
  induction first generalizing second with
  | nil =>
    have hmem := mem_iff_of_ties htotal hties
    cases second with
    | nil => rfl
    | cons other second => exact absurd ((hmem other).mpr (by simp)) (by simp)
  | cons item first ih =>
    have hmem := mem_iff_of_ties htotal hties
    cases second with
    | nil => exact absurd ((hmem item).mp (by simp)) (by simp)
    | cons other second =>
      obtain ⟨hitem, hfirstRest⟩ := List.pairwise_cons.mp hfirst
      obtain ⟨hother, hsecondRest⟩ := List.pairwise_cons.mp hsecond
      -- each head is at or before everything, so the two heads lead one class
      have hle : le item other = true := by
        rcases List.mem_cons.mp ((hmem other).mpr (by simp)) with rfl | h
        · exact hself other
        · exact hitem other h
      have hge : le other item = true := by
        rcases List.mem_cons.mp ((hmem item).mp (by simp)) with rfl | h
        · exact hself item
        · exact hother item h
      have hheads := hties item
      rw [List.filter_cons_of_pos (tied_self htotal item),
        List.filter_cons_of_pos (by simp [tied, hle, hge])] at hheads
      obtain rfl : item = other := (List.cons.inj hheads).1
      have hrest : ∀ x, first.filter (tied le x) = second.filter (tied le x) := by
        intro x
        have h := hties x
        by_cases hx : tied le x item = true
        · rw [List.filter_cons_of_pos hx, List.filter_cons_of_pos hx] at h
          exact (List.cons.inj h).2
        · rwa [List.filter_cons_of_neg hx, List.filter_cons_of_neg hx] at h
      exact congrArg (item :: ·) (ih hfirstRest hsecondRest hrest)

theorem filter_tied_mergeSort
    (htrans : ∀ a b c, le a b = true → le b c = true → le a c = true)
    (htotal : ∀ a b, (le a b || le b a) = true) (items : List α) (item : α) :
    (items.mergeSort le).filter (tied le item) = items.filter (tied le item) := by
  refine filter_mergeSort htrans htotal (fun a b ha hb => ?_) items
  rw [tied, Bool.and_eq_true] at ha hb
  exact htrans a item b ha.2 hb.1

/-- When all items with a property come before all others, the two parts are
sorted apart. -/
theorem mergeSort_eq_append (htrans : ∀ a b c, le a b = true → le b c = true → le a c = true)
    (htotal : ∀ a b, (le a b || le b a) = true) {p : α → Bool}
    (hp : ∀ a b, p a = true → p b = false → le b a = false) (items : List α) :
    items.mergeSort le =
      (items.filter p).mergeSort le ++ (items.filter fun item => !p item).mergeSort le := by
  have hsorted : ∀ part : List α, (part.mergeSort le).Pairwise fun a b => le a b = true :=
    List.pairwise_mergeSort htrans htotal
  refine eq_of_sorted_of_ties htotal (hsorted items) ?_ fun item => ?_
  · refine List.pairwise_append.mpr ⟨hsorted _, hsorted _, fun a ha b hb => ?_⟩
    have ha' := (List.mem_filter.mp ((List.mergeSort_perm _ _).mem_iff.mp ha)).2
    have hb' := (List.mem_filter.mp ((List.mergeSort_perm _ _).mem_iff.mp hb)).2
    have hback := hp a b ha' (by simpa using hb')
    simpa [hback] using htotal a b
  · -- a class of ties is on one side as a whole
    have hside : ∀ other, tied le item other = true → p other = p item := by
      intro other htied
      rw [tied, Bool.and_eq_true] at htied
      cases hitem : p item with
      | true =>
        refine Bool.of_not_eq_false fun hother => ?_
        simp [hp item other hitem hother] at htied
      | false =>
        refine Bool.of_not_eq_true fun hother => ?_
        simp [hp other item hother hitem] at htied
    have hpart : ∀ q : α → Bool, (∀ other, tied le item other = true → q other = q item) →
        (items.filter fun other => tied le item other && q other) =
          if q item then items.filter (tied le item) else [] := by
      intro q hq
      split
      · rename_i hitem
        refine List.filter_congr fun other _ => ?_
        cases htied : tied le item other with
        | false => rfl
        | true => rw [hq other htied, hitem, Bool.and_self]
      · rename_i hitem
        refine List.filter_eq_nil_iff.mpr fun other _ h => hitem ?_
        rw [Bool.and_eq_true] at h
        rw [← hq other h.1, h.2]
    simp only [List.filter_append, filter_tied_mergeSort htrans htotal, List.filter_filter]
    rw [hpart p hside, hpart (!p ·) fun other htied => congrArg (!·) (hside other htied)]
    cases p item <;> simp

end LintLayer.Sort
