import LintLayer.Json.Record
import LintLayer.Proofs.Json.Canonical

/-!
# Reading undoes writing

`Codes` says of a reader and a writer that they belong together: a value that
fits is read back from its written form, and every value that is read fits.  So
what fits is exactly what a reader can give.

The lemmas build the pair of a list, an option or a pair from those of its
parts, and the lemmas on slots do so for the fields of a record.
-/

namespace LintLayer.Json

variable {α β : Type}

/-- Reading undoes writing for the values that fit, and gives only such
values. -/
structure Codes (read : Json → Option α) (write : α → Json) (Fits : α → Prop) : Prop where
  back : ∀ value, Fits value → read (write value) = some value
  fits : ∀ json value, read json = some value → Fits value

section Parts

variable {read : Json → Option α} {write : α → Json} {Fits : α → Prop}

@[simp] theorem asString?_str (value : String) : asString? (.str value) = some value := rfl

theorem codes_string : Codes asString? .str fun _ => True :=
  ⟨fun _ _ => rfl, fun _ _ _ => trivial⟩

theorem asNat?_ofNat {bound value : Nat} (h : value < bound) :
    asNat? bound (ofNat value) = some value := by
  have hrange : (0 : Int) ≤ (value : Int) ∧ (value : Int).toNat < bound := by omega
  rw [ofNat, asNat?, if_pos hrange, Int.toNat_natCast]

theorem lt_of_asNat? {bound value : Nat} {json : Json} (h : asNat? bound json = some value) :
    value < bound := by
  unfold asNat? at h
  split at h
  · split at h
    · rename_i hrange
      cases h
      exact hrange.2
    · cases h
  · cases h

theorem codes_word : Codes asWord? ofNat (· < Nat.pow 2 64) :=
  ⟨fun _ => asNat?_ofNat, fun _ _ => lt_of_asNat?⟩

theorem codes_uint8 : Codes asUInt8? (fun value => ofNat value.toNat) fun _ => True where
  back value _ := by
    rw [asUInt8?, asNat?_ofNat value.toNat_lt, Option.map_some, UInt8.ofNat_toNat]
  fits _ _ _ := trivial

theorem codes_uint32 : Codes asUInt32? (fun value => ofNat value.toNat) fun _ => True where
  back value _ := by
    rw [asUInt32?, asNat?_ofNat value.toNat_lt, Option.map_some, UInt32.ofNat_toNat]
  fits _ _ _ := trivial

theorem codes_json : Codes asJson? id Canonical where
  back value h := by
    rw [id, asJson?, isReadable_of_canonical h, if_pos rfl, sorted_of_canonical h]
  fits json value h := by
    unfold asJson? at h
    split at h
    · rename_i hreadable
      cases h
      exact canonical_sorted hreadable
    · cases h

/-- A list is read item by item. -/
theorem codes_list (h : Codes read write Fits) :
    Codes (asList? read) (fun values => .arr (values.map write)) fun values =>
      ∀ value ∈ values, Fits value where
  back values hvalues := by
    rw [asList?]
    induction values with
    | nil => rfl
    | cons value values ih =>
      rw [List.map_cons, List.mapM_cons, h.back value (hvalues value (by simp)),
        ih fun other hother => hvalues other (by simp [hother])]
      rfl
  fits json values hread := by
    unfold asList? at hread
    split at hread
    · rename_i items
      induction items generalizing values with
      | nil =>
        cases hread
        simp
      | cons item items ih =>
        rw [List.mapM_cons] at hread
        obtain ⟨value, hvalue, hread⟩ := Option.bind_eq_some_iff.mp hread
        obtain ⟨rest, hrest, hread⟩ := Option.bind_eq_some_iff.mp hread
        cases hread
        intro other hother
        rcases List.mem_cons.mp hother with rfl | hother
        · exact h.fits item other hvalue
        · exact ih rest hrest other hother
    · cases hread

/-- Two values are read one after the other. -/
theorem codes_pair {readOther : Json → Option β} {writeOther : β → Json} {FitsOther : β → Prop}
    (h : Codes read write Fits) (h' : Codes readOther writeOther FitsOther) :
    Codes (asPair? read readOther) (fun pair => .arr [write pair.1, writeOther pair.2]) fun pair =>
      Fits pair.1 ∧ FitsOther pair.2 where
  back pair hpair := by
    simp [asPair?, h.back _ hpair.1, h'.back _ hpair.2]
  fits json pair hread := by
    unfold asPair? at hread
    split at hread
    · obtain ⟨first, hfirst, hread⟩ := Option.bind_eq_some_iff.mp hread
      obtain ⟨second, hsecond, hread⟩ := Option.bind_eq_some_iff.mp hread
      cases hread
      exact ⟨h.fits _ _ hfirst, h'.fits _ _ hsecond⟩
    · cases hread

/-- Null stands for nothing, if no value is written as null. -/
theorem codes_option (h : Codes read write Fits) (hnull : ∀ value, write value ≠ .null) :
    Codes (asOption? read) (ofOption write) fun value => ∀ held ∈ value, Fits held where
  back value hvalue := by
    cases value with
    | none => rfl
    | some held =>
      rw [ofOption]
      unfold asOption?
      split
      · rename_i heq
        exact absurd heq (hnull held)
      · rw [h.back held (hvalue held rfl), Option.map_some]
  fits json value hread := by
    unfold asOption? at hread
    split at hread
    · cases hread
      simp
    · obtain ⟨held, hheld, rfl⟩ := Option.map_eq_some_iff.mp hread
      rintro _ ⟨⟩
      exact h.fits json held hheld

end Parts

/-! ## Fields -/

namespace Slot

/-- The slot of a field that is written or left out. -/
def ofOption : Option Json → Slot
  | some value => .given value
  | none => .absent

@[simp] theorem ofOption_some (value : Json) : ofOption (some value) = .given value := rfl

variable {read : Json → Option α} {write : α → Json} {Fits : α → Prop}

@[simp] theorem required_given (value : Json) : (given value).required read = read value := rfl

@[simp] theorem orDefault_given (default : α) (value : Json) :
    (given value).orDefault read default = read value := rfl

@[simp] theorem orAbsent_given (default : α) (value : Json) :
    (given value).orAbsent read default = read value := rfl

/-- An option whose field is left out when there is nothing to write. -/
theorem orDefault_ofOption (h : Codes read write Fits) (hnull : ∀ value, write value ≠ .null)
    (value : Option α) (hvalue : ∀ held ∈ value, Fits held) :
    (ofOption (value.map write)).orDefault (asOption? read) none = some value := by
  cases value with
  | none => rfl
  | some held => exact (codes_option h hnull).back (some held) hvalue

theorem fits_of_required (h : Codes read write Fits) {slot : Slot} {value : α}
    (hread : slot.required read = some value) : Fits value := by
  cases slot with
  | given json => exact h.fits json value hread
  | absent => cases hread
  | ended => cases hread

theorem fits_of_orDefault (h : Codes read write Fits) {default : α} (hdefault : Fits default)
    {slot : Slot} {value : α} (hread : slot.orDefault read default = some value) :
    Fits value := by
  cases slot with
  | given json => exact h.fits json value hread
  | absent => exact Option.some.inj hread ▸ hdefault
  | ended => exact Option.some.inj hread ▸ hdefault

end Slot

/-- The member of a field that is written or left out. -/
def fieldMember (name : String) (value : Option Json) : List (String × Json) :=
  (value.map (Prod.mk name)).toList

/-- The members of the fields `names`. -/
def fieldMembers : List String → List (Option Json) → List (String × Json)
  | name :: names, value :: values => fieldMember name value ++ fieldMembers names values
  | _, _ => []

theorem key_mem_of_mem_fieldMembers {names : List String} {values : List (Option Json)}
    {member : String × Json} (h : member ∈ fieldMembers names values) : member.1 ∈ names := by
  fun_induction fieldMembers names values with
  | case1 name names value values ih =>
    rcases List.mem_append.mp h with hfirst | hlater
    · cases value with
      | none => simp [fieldMember] at hfirst
      | some json =>
        obtain rfl : member = (name, json) := by simpa [fieldMember] using hfirst
        simp
    · exact List.mem_cons_of_mem _ (ih hlater)
  | case2 => simp at h

/-- Only the member of a field itself decides on its slot. -/
theorem slotOf?_fieldMember {before after : List (String × Json)} {name : String}
    (hbefore : ∀ member ∈ before, member.1 ≠ name) (hafter : ∀ member ∈ after, member.1 ≠ name)
    (value : Option Json) :
    slotOf? (before ++ (fieldMember name value ++ after)) name = some (Slot.ofOption value) := by
  have hnone : ∀ {members : List (String × Json)}, (∀ member ∈ members, member.1 ≠ name) →
      (members.filter fun entry => entry.1 = name) = [] := by
    intro members hmembers
    simpa using hmembers
  rw [slotOf?, List.filter_append, List.filter_append, hnone hbefore, hnone hafter]
  cases value with
  | none => rfl
  | some json => simp [fieldMember, Slot.ofOption]

/-- The fields of an object are found again, since their names differ. -/
theorem mapM_slotOf?_fieldMembers {names : List String} {values : List (Option Json)}
    (hnodup : names.Nodup) (hlength : names.length = values.length)
    (before : List (String × Json)) (hbefore : ∀ member ∈ before, member.1 ∉ names) :
    names.mapM (slotOf? (before ++ fieldMembers names values)) =
      some (values.map Slot.ofOption) := by
  induction names generalizing values before with
  | nil =>
    obtain rfl : values = [] := List.eq_nil_of_length_eq_zero hlength.symm
    rfl
  | cons name names ih =>
    obtain ⟨value, values, rfl⟩ := List.exists_cons_of_length_eq_add_one hlength.symm
    obtain ⟨hname, hnodup⟩ := List.nodup_cons.mp hnodup
    have hfirst : slotOf? (before ++ fieldMembers (name :: names) (value :: values)) name =
        some (Slot.ofOption value) := by
      refine slotOf?_fieldMember (fun member hmember heq => ?_) (fun member hmember heq => ?_) value
      · exact hbefore member hmember (heq ▸ List.mem_cons_self)
      · exact hname (heq ▸ key_mem_of_mem_fieldMembers hmember)
    have hlater := ih hnodup (Nat.succ.inj hlength) (before ++ fieldMember name value) ?_
    · rw [List.append_assoc] at hlater
      rw [List.mapM_cons, hfirst, fieldMembers, hlater]
      rfl
    · intro member hmember hlater
      rcases List.mem_append.mp hmember with hearlier | hown
      · exact hbefore member hearlier (List.mem_cons_of_mem _ hlater)
      · cases value with
        | none => simp [fieldMember] at hown
        | some json =>
          obtain rfl : member = (name, json) := by simpa [fieldMember] using hown
          exact hname hlater

/-- An object that is written field by field is read field by field. -/
theorem record?_fieldMembers (names : List String) (values : List (Option Json))
    (hnodup : names.Nodup) (hlength : names.length = values.length) :
    record? names (.obj (fieldMembers names values)) = some (values.map Slot.ofOption) :=
  mapM_slotOf?_fieldMembers hnodup hlength [] (by simp)

end LintLayer.Json
