import LintLayer.Proofs.Json.Codec
import LintLayer.Report.Wire
import Mathlib.Data.List.Forall2

/-!
# The forms of a fix

A fix is given as one replacement or as a list of replacements.  A replacement
is an object, or an array of its fields, and its range is an array too; so a
fix can be arrays three levels deep.  The two readings are tried one after the
other, and here is why the order does not count.

* `SpellsRange` and `Replacement.Spells` are the forms of a range and of a
  replacement, and `Replacement.ofJson?_eq_some_iff` says that exactly these are
  read.
* `SpellsRange.not_spells` is the reason: a range holds numbers, where the
  fields of a replacement start with a range.
* `Fix.readings_never_compete` is the result.
-/

namespace LintLayer

namespace Json

/-! ## What the readers accept -/

variable {α β : Type}

theorem asString?_eq_some_iff {json : Json} {text : String} :
    asString? json = some text ↔ json = .str text := by
  cases json <;> simp [asString?]

theorem asWord?_eq_some_iff {json : Json} {value : Nat} :
    asWord? json = some value ↔ json = ofNat value ∧ value < Nat.pow 2 64 := by
  constructor
  · intro h
    refine ⟨?_, lt_of_asNat? h⟩
    unfold asWord? asNat? at h
    split at h
    · rename_i number
      split at h
      · rename_i hrange
        cases h
        rw [ofNat, Int.toNat_of_nonneg hrange.1]
      · cases h
    · cases h
  · rintro ⟨rfl, hlt⟩
    exact asNat?_ofNat hlt

theorem asPair?_eq_some_iff {first : Json → Option α} {second : Json → Option β} {json : Json}
    {pair : α × β} :
    asPair? first second json = some pair ↔
      ∃ a b, json = .arr [a, b] ∧ first a = some pair.1 ∧ second b = some pair.2 := by
  obtain ⟨x, y⟩ := pair
  unfold asPair?
  split
  · rename_i a b
    simp [Option.bind_eq_some_iff]
  · rename_i hother
    simp only [reduceCtorEq, false_iff]
    rintro ⟨a, b, rfl, -, -⟩
    exact hother a b rfl

theorem mapM_eq_some_iff {read : Json → Option α} {items : List Json} {values : List α} :
    items.mapM read = some values ↔
      List.Forall₂ (fun item value => read item = some value) items values := by
  induction items generalizing values with
  | nil => simp [eq_comm]
  | cons item items ih =>
    simp only [List.mapM_cons, Option.bind_eq_bind, Option.bind_eq_some_iff, Option.pure_def,
      Option.some.injEq, List.forall₂_cons_left_iff, ih]
    constructor
    · rintro ⟨value, hvalue, rest, hrest, rfl⟩
      exact ⟨value, rest, hvalue, hrest, rfl⟩
    · rintro ⟨value, rest, hvalue, hrest, rfl⟩
      exact ⟨value, hvalue, rest, hrest, rfl⟩

theorem asList?_eq_some_iff {read : Json → Option α} {json : Json} {values : List α} :
    asList? read json = some values ↔
      ∃ items, json = .arr items ∧
        List.Forall₂ (fun item value => read item = some value) items values := by
  unfold asList?
  split
  · simp [mapM_eq_some_iff]
  · rename_i hother
    simp only [reduceCtorEq, false_iff]
    rintro ⟨items, rfl, -⟩
    exact hother items rfl

/-- The members of an object that have a name: the one that is given, or
none. -/
def Field (members : List (String × Json)) (name : String) (value : Option Json) : Prop :=
  (members.filter fun member => member.1 = name) = fieldMember name value

theorem slotOf?_eq_some_iff {members : List (String × Json)} {name : String} {slot : Slot} :
    slotOf? members name = some slot ↔
      ∃ value, Field members name value ∧ slot = Slot.ofOption value := by
  have hnamed : ∀ member ∈ members.filter fun member => member.1 = name, member.1 = name :=
    fun member hmember => of_decide_eq_true (List.mem_filter.mp hmember).2
  unfold slotOf? Field
  generalize (members.filter fun member => member.1 = name) = named at *
  constructor
  · intro h
    split at h
    · cases h
      exact ⟨none, rfl, rfl⟩
    · rename_i key json
      cases h
      obtain rfl : key = name := hnamed (key, json) (by simp)
      exact ⟨some json, rfl, rfl⟩
    · cases h
  · rintro ⟨value, rfl, rfl⟩
    cases value <;> rfl

/-- The slot of a field that is an item of an array or behind its end. -/
def Slot.ofItem : Option Json → Slot
  | some value => .given value
  | none => .ended

/-- An object gives a field that has to be there, and perhaps another. -/
theorem record?_obj_eq_some_iff {first second : String} {members : List (String × Json)}
    {value : Json} {slot : Slot} :
    record? [first, second] (.obj members) = some [.given value, slot] ↔
      Field members first (some value) ∧
        ∃ given, Field members second given ∧ slot = Slot.ofOption given := by
  have hfirst : slotOf? members first = some (.given value) ↔ Field members first (some value) := by
    rw [slotOf?_eq_some_iff]
    constructor
    · rintro ⟨_ | held, hheld, heq⟩
      · cases heq
      · cases heq
        exact hheld
    · intro h
      exact ⟨some value, h, rfl⟩
  rw [← hfirst, ← slotOf?_eq_some_iff]
  simp [record?, Option.bind_eq_some_iff]

/-- An array gives a field that has to be there as its first item, and perhaps
another one as its second. -/
theorem record?_arr_eq_some_iff {first second : String} {items : List Json} {value : Json}
    {slot : Slot} :
    record? [first, second] (.arr items) = some [.given value, slot] ↔
      ∃ given : Option Json, items = value :: given.toList ∧ slot = Slot.ofItem given := by
  constructor
  · intro h
    match items with
    | [] => simp [record?] at h
    | [item] =>
      obtain ⟨rfl, rfl⟩ : item = value ∧ Slot.ended = slot := by simpa [record?] using h
      exact ⟨none, rfl, rfl⟩
    | [item, other] =>
      obtain ⟨rfl, rfl⟩ : item = value ∧ Slot.given other = slot := by simpa [record?] using h
      exact ⟨some other, rfl, rfl⟩
    | _ :: _ :: _ :: more =>
      rw [record?, if_pos (by simp)] at h
      cases h
  · rintro ⟨_ | other, rfl, rfl⟩ <;> rfl

end Json

open Json

/-! ## Ranges and replacements -/

/-- The form of a range: an array of two numbers of 64 bits. -/
inductive SpellsRange : Json → Nat → Nat → Prop
  | pair {start stop : Nat} (hstart : start < Nat.pow 2 64) (hstop : stop < Nat.pow 2 64) :
    SpellsRange (.arr [ofNat start, ofNat stop]) start stop

theorem asPair?_word_eq_some_iff {json : Json} {start stop : Nat} :
    asPair? asWord? asWord? json = some (start, stop) ↔ SpellsRange json start stop := by
  rw [asPair?_eq_some_iff]
  simp only [asWord?_eq_some_iff]
  constructor
  · rintro ⟨_, _, rfl, ⟨rfl, hstart⟩, rfl, hstop⟩
    exact .pair hstart hstop
  · rintro ⟨hstart, hstop⟩
    exact ⟨_, _, rfl, ⟨rfl, hstart⟩, rfl, hstop⟩

/-- The form of a text that may be left out. -/
inductive SpellsText : Option Json → String → Prop
  | absent : SpellsText none ""
  | given (text : String) : SpellsText (some (.str text)) text

/-- A text is read from a slot that holds one, and from an empty slot. -/
theorem orDefault_text_eq_some_iff {slot : Slot} {given : Option Json} {text : String}
    (hslot : slot = Slot.ofOption given ∨ slot = Slot.ofItem given) :
    slot.orDefault asString? "" = some text ↔ SpellsText given text := by
  cases given with
  | none =>
    have hempty : slot.orDefault asString? "" = some "" := by
      rcases hslot with rfl | rfl <;> rfl
    rw [hempty, Option.some.injEq]
    constructor
    · rintro rfl
      exact .absent
    · rintro ⟨⟩
      rfl
  | some json =>
    have hgiven : slot.orDefault asString? "" = asString? json := by
      rcases hslot with rfl | rfl <;> rfl
    rw [hgiven, asString?_eq_some_iff]
    constructor
    · rintro rfl
      exact .given text
    · rintro ⟨⟩
      rfl

namespace Replacement

/-- The forms of a replacement: an object in which the range is given once and
the text at most once, or an array of a range and perhaps a text. -/
inductive Spells : Json → Replacement → Prop
  | object {members : List (String × Json)} {range : Json} {given : Option Json}
      {start stop : Nat} {text : String} (hrange : Field members "range" (some range))
      (hgiven : Field members "text" given) (hspells : SpellsRange range start stop)
      (htext : SpellsText given text) :
    Spells (.obj members) (ofBounds start stop text)
  | items {range : Json} {given : Option Json} {start stop : Nat} {text : String}
      (hspells : SpellsRange range start stop) (htext : SpellsText given text) :
    Spells (.arr (range :: given.toList)) (ofBounds start stop text)

/-- A replacement is read from the slots of its two fields. -/
theorem ofJson?_eq_some_iff_slots {json : Json} {replacement : Replacement} :
    ofJson? json = some replacement ↔
      ∃ range text, record? ["range", "text"] json = some [range, text] ∧
        ∃ start stop written, range.required (asPair? asWord? asWord?) = some (start, stop) ∧
          text.orDefault asString? "" = some written ∧
          replacement = ofBounds start stop written := by
  constructor
  · intro h
    obtain ⟨slots, hslots, h⟩ := Option.bind_eq_some_iff.mp h
    split at h
    · rename_i range text
      obtain ⟨⟨start, stop⟩, hrange, h⟩ := Option.bind_eq_some_iff.mp h
      obtain ⟨written, htext, h⟩ := Option.bind_eq_some_iff.mp h
      cases h
      exact ⟨range, text, hslots, start, stop, written, hrange, htext, rfl⟩
    · cases h
  · rintro ⟨range, text, hslots, start, stop, written, hrange, htext, rfl⟩
    rw [ofJson?, hslots]
    simp [hrange, htext]

/-- A range is given, and it is read. -/
theorem required_range_eq_some_iff {slot : Slot} {start stop : Nat} :
    slot.required (asPair? asWord? asWord?) = some (start, stop) ↔
      ∃ range, slot = .given range ∧ SpellsRange range start stop := by
  cases slot <;> simp [Slot.required, asPair?_word_eq_some_iff]

/-- Exactly the forms of a replacement are read. -/
theorem ofJson?_eq_some_iff {json : Json} {replacement : Replacement} :
    ofJson? json = some replacement ↔ Spells json replacement := by
  rw [ofJson?_eq_some_iff_slots]
  constructor
  · rintro ⟨_, slot, hslots, start, stop, text, hrange, htext, rfl⟩
    obtain ⟨range, rfl, hspells⟩ := required_range_eq_some_iff.mp hrange
    cases json with
    | obj members =>
      obtain ⟨hfield, given, hgiven, hslot⟩ := record?_obj_eq_some_iff.mp hslots
      exact .object hfield hgiven hspells ((orDefault_text_eq_some_iff (.inl hslot)).mp htext)
    | arr items =>
      obtain ⟨given, rfl, hslot⟩ := record?_arr_eq_some_iff.mp hslots
      exact .items hspells ((orDefault_text_eq_some_iff (.inr hslot)).mp htext)
    | null | bool | int | float | str | unreadable => cases hslots
  · intro h
    cases h with
    | object hfield hgiven hspells htext =>
      exact ⟨_, _, record?_obj_eq_some_iff.mpr ⟨hfield, _, hgiven, rfl⟩, _, _, _,
        required_range_eq_some_iff.mpr ⟨_, rfl, hspells⟩,
        (orDefault_text_eq_some_iff (.inl rfl)).mpr htext, rfl⟩
    | items hspells htext =>
      exact ⟨_, _, record?_arr_eq_some_iff.mpr ⟨_, rfl, rfl⟩, _, _, _,
        required_range_eq_some_iff.mpr ⟨_, rfl, hspells⟩,
        (orDefault_text_eq_some_iff (.inr rfl)).mpr htext, rfl⟩

end Replacement

/-- A range is no replacement: where the first field would have to be a range,
it holds a number. -/
theorem SpellsRange.not_spells {json : Json} {start stop : Nat} (h : SpellsRange json start stop)
    (replacement : Replacement) : ¬ Replacement.Spells json replacement := by
  obtain ⟨-, -⟩ := h
  intro hspells
  generalize hjson : Json.arr [ofNat start, ofNat stop] = json at hspells
  cases hspells with
  | object => cases hjson
  | items hrange _ =>
    obtain ⟨hfirst, -⟩ := List.cons.inj (Json.arr.inj hjson)
    rw [← hfirst] at hrange
    cases hrange

/-! ## Fixes -/

namespace Fix

/-- Replacements one after the other, each in its form. -/
def SpellsMany (json : Json) (replacements : List Replacement) : Prop :=
  ∃ items, json = .arr items ∧ List.Forall₂ Replacement.Spells items replacements

theorem ofOne?_eq_some_iff {json : Json} {fix : Fix} :
    ofOne? json = some fix ↔
      ∃ replacement, Replacement.Spells json replacement ∧ fix = ⟨[replacement]⟩ := by
  simp only [ofOne?, Option.map_eq_some_iff, Replacement.ofJson?_eq_some_iff, eq_comm (b := fix)]

theorem ofMany?_eq_some_iff {json : Json} {fix : Fix} :
    ofMany? json = some fix ↔ SpellsMany json fix.replacements := by
  obtain ⟨replacements⟩ := fix
  simp [ofMany?, SpellsMany, asList?_eq_some_iff, Replacement.ofJson?_eq_some_iff]

/-- One replacement is no list of replacements: its range would have to be one
of them. -/
theorem not_spellsMany_of_spells {json : Json} {replacement : Replacement}
    (h : Replacement.Spells json replacement) (replacements : List Replacement) :
    ¬ SpellsMany json replacements := by
  rintro ⟨items, hitems, hall⟩
  cases h with
  | object => cases hitems
  | items hrange _ =>
    cases hitems
    cases hall with
    | cons hfirst _ => exact hrange.not_spells _ hfirst

/-- One reading of a fix takes the forms of one replacement, the other lists of
such forms, and no value has both.  So it makes no difference which reading is
tried first. -/
theorem readings_never_compete (json : Json) :
    (∀ fix, ofOne? json = some fix ↔
      ∃ replacement, Replacement.Spells json replacement ∧ fix = ⟨[replacement]⟩) ∧
    (∀ fix, ofMany? json = some fix ↔ SpellsMany json fix.replacements) ∧
    (ofOne? json = none ∨ ofMany? json = none) ∧
    ofJson? json = if json.isReadable then (ofMany? json).or (ofOne? json) else none := by
  have hnever : ofOne? json = none ∨ ofMany? json = none := by
    cases hone : ofOne? json with
    | none => exact .inl rfl
    | some fix =>
      obtain ⟨replacement, hspells, -⟩ := ofOne?_eq_some_iff.mp hone
      refine .inr (Option.eq_none_iff_forall_ne_some.mpr fun other hmany => ?_)
      exact not_spellsMany_of_spells hspells _ (ofMany?_eq_some_iff.mp hmany)
  refine ⟨fun _ => ofOne?_eq_some_iff, fun _ => ofMany?_eq_some_iff, hnever, ?_⟩
  rw [ofJson?]
  rcases hnever with hnone | hnone
  · rw [hnone, Option.none_or, Option.or_none]
  · rw [hnone, Option.none_or, Option.or_none]

-- the same range at three depths: a range alone, one replacement, a list of one
example :
    let range : Json := .arr [.int 1, .int 2]
    [ofJson? (.arr []), ofJson? range, ofJson? (.arr [range]), ofJson? (.arr [.arr [range]])] =
      [some ⟨[]⟩, none, some ⟨[.ofBounds 1 2 ""]⟩, some ⟨[.ofBounds 1 2 ""]⟩] := by
  decide

end Fix

end LintLayer
