import LintLayer.Proofs.Edit.Patch
import LintLayer.Proofs.Text.Boundary
import Mathlib.Data.List.Induction

/-!
# Edits one after the other and all at once

Edits are applied one after the other, each to the text that the ones before
it left.  Their meaning has no order: every character inside a span that fits
the text goes, every other one stays, and each new text stands where its span
starts.  `replaceAtOnce` writes this down on the text alone, character by
character.

* `boundary_spliceAll_iff` is what makes the two agree on the edits to leave
  out: edits behind an offset neither make it a boundary nor stop it being one.
* `spliceAll_eq_replaceAtOnce` compares the texts, for edits of which each one
  ends in front of all edits before it.
* `backToFront_of_starts_ne` is the statement for a list of edits in any order.
-/

namespace LintLayer

open Text

/-- The spans have no byte in common, and neither starts inside the other. -/
def Span.Disjoint (a b : Span) : Prop :=
  a.stop ≤ b.start ∨ b.stop ≤ a.start

instance (a b : Span) : Decidable (a.Disjoint b) :=
  inferInstanceAs (Decidable (_ ∨ _))

theorem Span.Disjoint.symm {a b : Span} (h : a.Disjoint b) : b.Disjoint a :=
  Or.symm h

theorem Span.start_le_stop (span : Span) : span.start ≤ span.stop :=
  Nat.le_add_right _ _

namespace Edit

/-! ## One after the other -/

/-- The text after the edits, applied one after the other. -/
def spliceAll (text : List Char) (edits : List Edit) : List Char :=
  edits.foldl (fun current edit => edit.splice current) text

theorem spliceAll_append (text : List Char) (edits more : List Edit) :
    spliceAll text (edits ++ more) = spliceAll (spliceAll text edits) more :=
  List.foldl_append

theorem spliceAll_concat (text : List Char) (edits : List Edit) (edit : Edit) :
    spliceAll text (edits ++ [edit]) = edit.splice (spliceAll text edits) :=
  spliceAll_append text edits [edit]

/-- An edit is carried out exactly if its span fits the text, and then it
replaces the part at its span. -/
theorem splice?_eq_some_iff {edit : Edit} {text result : List Char} :
    edit.splice? text = some result ↔ ∃ before old after, text = before ++ old ++ after ∧
      bytes before = edit.span.start ∧ bytes old = edit.span.length ∧
        result = before ++ edit.newText.toList ++ after := by
  constructor
  · intro h
    simp only [splice?, Option.bind_eq_bind, Option.bind_eq_some_iff, Option.pure_def,
      Option.some.injEq, Prod.exists] at h
    obtain ⟨before, rest, hbefore, old, after, hold, rfl⟩ := h
    obtain ⟨rfl, hstart⟩ := cut?_eq_some_iff.mp hbefore
    obtain ⟨rfl, hlength⟩ := cut?_eq_some_iff.mp hold
    exact ⟨before, old, after, by rw [List.append_assoc], hstart, hlength, rfl⟩
  · rintro ⟨before, old, after, rfl, hstart, hlength, rfl⟩
    simp only [splice?, ← hstart, ← hlength, List.append_assoc, cut?_bytes_append,
      Option.bind_eq_bind, Option.bind_some, Option.pure_def]

theorem isSome_splice?_iff {edit : Edit} {text : List Char} :
    (edit.splice? text).isSome = true ↔ edit.span.FitsIn text := by
  rw [Option.isSome_iff_exists, Span.fitsIn_iff]
  simp only [splice?_eq_some_iff]
  constructor
  · rintro ⟨_, before, old, after, htext, hstart, hlength, -⟩
    exact ⟨before, old, after, htext, hstart, hlength⟩
  · rintro ⟨before, old, after, htext, hstart, hlength⟩
    exact ⟨_, before, old, after, htext, hstart, hlength, rfl⟩

theorem splice_of_not_fitsIn {edit : Edit} {text : List Char} (h : ¬ edit.span.FitsIn text) :
    edit.splice text = text := by
  rw [← isSome_splice?_iff, Option.not_isSome_iff_eq_none] at h
  rw [splice, h, Option.getD_none]

/-- The parts of the text around an edit that fits, before and after it. -/
theorem splice_of_fitsIn {edit : Edit} {text : List Char} (h : edit.span.FitsIn text) :
    ∃ before old after, text = before ++ old ++ after ∧ bytes before = edit.span.start ∧
      bytes old = edit.span.length ∧
        edit.splice text = before ++ edit.newText.toList ++ after := by
  obtain ⟨result, hresult⟩ := Option.isSome_iff_exists.mp (isSome_splice?_iff.mpr h)
  obtain ⟨before, old, after, htext, hstart, hlength, rfl⟩ := splice?_eq_some_iff.mp hresult
  exact ⟨before, old, after, htext, hstart, hlength, by rw [splice, hresult, Option.getD_some]⟩

/-- An edit keeps the boundaries up to its start. -/
theorem boundary_splice_iff {edit : Edit} {offset : Nat} (hle : offset ≤ edit.span.start)
    (text : List Char) :
    Boundary (edit.splice text) offset ↔ Boundary text offset := by
  by_cases hfits : edit.span.FitsIn text
  · obtain ⟨before, old, after, rfl, hstart, -, hsplice⟩ := splice_of_fitsIn hfits
    have hbefore : offset ≤ bytes before := by omega
    rw [hsplice, List.append_assoc, List.append_assoc, boundary_append_iff hbefore,
      boundary_append_iff hbefore]
  · rw [splice_of_not_fitsIn hfits]

/-- Edits behind an offset decide nothing about it. -/
theorem boundary_spliceAll_iff {edits : List Edit} {offset : Nat}
    (hle : ∀ edit ∈ edits, offset ≤ edit.span.start) (text : List Char) :
    Boundary (spliceAll text edits) offset ↔ Boundary text offset := by
  induction edits generalizing text with
  | nil => rfl
  | cons edit edits ih =>
    have hrest := ih (fun other h => hle other (by simp [h])) (edit.splice text)
    exact hrest.trans (boundary_splice_iff (hle edit (by simp)) text)

/-- A span in front of the edits fits the text after them exactly if it fits
the text before them. -/
theorem fitsIn_spliceAll_iff {edits : List Edit} {span : Span}
    (hle : ∀ edit ∈ edits, span.stop ≤ edit.span.start) (text : List Char) :
    span.FitsIn (spliceAll text edits) ↔ span.FitsIn text := by
  have hstart := boundary_spliceAll_iff
    (fun edit h => Nat.le_trans span.start_le_stop (hle edit h)) text
  have hstop := boundary_spliceAll_iff hle text
  constructor
  · intro h
    have hboundary := hstop.mp h.stop_boundary
    exact ⟨hboundary.le_bytes, hstart.mp h.start_boundary, hboundary⟩
  · intro h
    have hboundary := hstop.mpr h.stop_boundary
    exact ⟨hboundary.le_bytes, hstart.mpr h.start_boundary, hboundary⟩

/-! ## All at once -/

/-- The edits that insert at an offset. -/
def insertionsAt (edits : List Edit) (offset : Nat) : List Edit :=
  edits.filter fun edit => edit.span = Span.emptyAt offset

/-- The edits that replace the text from an offset on. -/
def replacementsAt (edits : List Edit) (offset : Nat) : List Edit :=
  edits.filter fun edit => edit.span.start = offset ∧ 0 < edit.span.length

/-- The new texts that stand at an offset, insertions first. -/
def newTextsAt (edits : List Edit) (offset : Nat) : List Char :=
  (insertionsAt edits offset ++ replacementsAt edits offset).flatMap
    fun edit => edit.newText.toList

/-- Whether an edit deletes the character at an offset. -/
def deletesAt (edits : List Edit) (offset : Nat) : Bool :=
  edits.any fun edit => edit.span.start ≤ offset && offset < edit.span.stop

/-- The characters from byte `offset` on, with all edits done. -/
def replaceFrom (edits : List Edit) (offset : Nat) : List Char → List Char
  | [] => newTextsAt edits offset
  | c :: cs =>
    newTextsAt edits offset ++ (if deletesAt edits offset then [] else [c]) ++
      replaceFrom edits (offset + c.utf8Size) cs

/-- The text with all edits that fit it done at once. -/
def replaceAtOnce (text : List Char) (edits : List Edit) : List Char :=
  replaceFrom (edits.filter fun edit => edit.span.FitsIn text) 0 text

theorem insertionsAt_eq_nil {edits : List Edit} {offset : Nat}
    (h : ∀ edit ∈ edits, edit.span ≠ Span.emptyAt offset) : insertionsAt edits offset = [] := by
  rw [insertionsAt, List.filter_eq_nil_iff]
  intro edit hedit hspan
  exact h edit hedit (of_decide_eq_true hspan)

theorem newTextsAt_eq_nil {edits : List Edit} {offset : Nat}
    (h : ∀ edit ∈ edits, edit.span.start ≠ offset) : newTextsAt edits offset = [] := by
  have hinsertions : insertionsAt edits offset = [] :=
    insertionsAt_eq_nil fun edit hedit hspan => h edit hedit (congrArg Span.start hspan)
  have hreplacements : replacementsAt edits offset = [] := by
    rw [replacementsAt, List.filter_eq_nil_iff]
    intro edit hedit hstart
    exact h edit hedit (of_decide_eq_true hstart).1
  rw [newTextsAt, hinsertions, hreplacements]
  rfl

theorem deletesAt_eq_false {edits : List Edit} {offset : Nat}
    (h : ∀ edit ∈ edits, offset < edit.span.start) : deletesAt edits offset = false := by
  rw [deletesAt, List.any_eq_false]
  intro edit hedit hinside
  have hbehind := h edit hedit
  simp only [Bool.and_eq_true, decide_eq_true_eq] at hinside
  omega

/-- A part in front of all edits stays. -/
theorem replaceFrom_append {edits : List Edit} {offset : Nat} (part rest : List Char)
    (h : ∀ edit ∈ edits, offset + bytes part ≤ edit.span.start) :
    replaceFrom edits offset (part ++ rest) =
      part ++ replaceFrom edits (offset + bytes part) rest := by
  induction part generalizing offset with
  | nil => rfl
  | cons c part ih =>
    have hbehind : ∀ edit ∈ edits, offset < edit.span.start := by
      intro edit hedit
      have hpos := c.utf8Size_pos
      have hle := h edit hedit
      rw [bytes] at hle
      omega
    have hlater : ∀ edit ∈ edits, offset + c.utf8Size + bytes part ≤ edit.span.start := by
      intro edit hedit
      have hle := h edit hedit
      rw [bytes] at hle
      omega
    rw [List.cons_append, replaceFrom, newTextsAt_eq_nil fun edit hedit =>
        Nat.ne_of_gt (hbehind edit hedit), deletesAt_eq_false hbehind, ih hlater, bytes,
      Nat.add_assoc]
    rfl

/-! ## One edit more -/

/-- `b` ends where `a` starts, or in front of it, and the two do not insert at
one place. -/
def Behind (a b : Edit) : Prop :=
  b.span.stop ≤ a.span.start ∧ a.span ≠ b.span

variable {edits : List Edit} {edit : Edit}

theorem insertionsAt_concat (offset : Nat) :
    insertionsAt (edits ++ [edit]) offset =
      insertionsAt edits offset ++ insertionsAt [edit] offset :=
  List.filter_append _ _

theorem replacementsAt_concat (offset : Nat) :
    replacementsAt (edits ++ [edit]) offset =
      replacementsAt edits offset ++ replacementsAt [edit] offset :=
  List.filter_append _ _

theorem newTextsAt_concat_of_ne {offset : Nat} (h : edit.span.start ≠ offset) :
    newTextsAt (edits ++ [edit]) offset = newTextsAt edits offset := by
  have hspan : edit.span ≠ Span.emptyAt offset := fun heq => h (congrArg Span.start heq)
  have hinsertion : insertionsAt [edit] offset = [] := by simp [insertionsAt, hspan]
  have hreplacement : replacementsAt [edit] offset = [] := by simp [replacementsAt, h]
  rw [newTextsAt, insertionsAt_concat, replacementsAt_concat, hinsertion, hreplacement,
    List.append_nil, List.append_nil, newTextsAt]

/-- No edit behind another one starts inside it. -/
theorem newTextsAt_eq_nil_of_behind (hbehind : ∀ other ∈ edits, Behind other edit) {offset : Nat}
    (hstop : offset < edit.span.stop) : newTextsAt edits offset = [] := by
  refine newTextsAt_eq_nil fun other hother hsame => ?_
  have hfront := (hbehind other hother).1
  omega

/-- The new text of an edit stands in front of those of the edits behind
it. -/
theorem newTextsAt_concat_start (hbehind : ∀ other ∈ edits, Behind other edit) :
    newTextsAt (edits ++ [edit]) edit.span.start =
      edit.newText.toList ++ newTextsAt edits edit.span.start := by
  rcases Nat.eq_zero_or_pos edit.span.length with hempty | hlength
  · -- an insertion: no other edit inserts here
    have hspan : edit.span = Span.emptyAt edit.span.start := by
      rw [Span.emptyAt, ← hempty]
    have hnone : insertionsAt edits edit.span.start = [] :=
      insertionsAt_eq_nil fun other hother hsame =>
        (hbehind other hother).2 (hsame.trans hspan.symm)
    have hinsertion : insertionsAt [edit] edit.span.start = [edit] := by
      simp [insertionsAt, ← hspan]
    have hreplacement : replacementsAt [edit] edit.span.start = [] := by
      simp [replacementsAt, hempty]
    rw [newTextsAt, newTextsAt, insertionsAt_concat, replacementsAt_concat, hnone, hinsertion,
      hreplacement, List.append_nil]
    rfl
  · -- a replacement: every other edit starts behind it
    have hspan : edit.span ≠ Span.emptyAt edit.span.start := by
      intro heq
      have hzero : edit.span.length = 0 := congrArg Span.length heq
      omega
    have hnone : newTextsAt edits edit.span.start = [] :=
      newTextsAt_eq_nil_of_behind hbehind (Nat.lt_add_of_pos_right hlength)
    have hinsertion : insertionsAt [edit] edit.span.start = [] := by simp [insertionsAt, hspan]
    have hreplacement : replacementsAt [edit] edit.span.start = [edit] := by
      simp [replacementsAt, hlength]
    rw [hnone, newTextsAt, insertionsAt_concat, replacementsAt_concat, hinsertion, hreplacement,
      List.append_nil, ← List.append_assoc, List.flatMap_append, ← newTextsAt, hnone]
    simp

theorem deletesAt_concat (edits : List Edit) (edit : Edit) (offset : Nat) :
    deletesAt (edits ++ [edit]) offset =
      (deletesAt edits offset || (edit.span.start ≤ offset && offset < edit.span.stop)) := by
  simp [deletesAt]

theorem deletesAt_concat_inside {offset : Nat} (hstart : edit.span.start ≤ offset)
    (hstop : offset < edit.span.stop) : deletesAt (edits ++ [edit]) offset = true := by
  rw [deletesAt_concat, decide_eq_true hstart, decide_eq_true hstop, Bool.and_self, Bool.or_true]

theorem deletesAt_concat_behind {offset : Nat} (hstop : edit.span.stop ≤ offset) :
    deletesAt (edits ++ [edit]) offset = deletesAt edits offset := by
  rw [deletesAt_concat, decide_eq_false (Nat.not_lt.mpr hstop), Bool.and_false, Bool.or_false]

/-- Behind an edit the text is as without it. -/
theorem replaceFrom_concat_behind {offset : Nat} (hstart : edit.span.start < offset)
    (hstop : edit.span.stop ≤ offset) (rest : List Char) :
    replaceFrom (edits ++ [edit]) offset rest = replaceFrom edits offset rest := by
  induction rest generalizing offset with
  | nil => exact newTextsAt_concat_of_ne (Nat.ne_of_lt hstart)
  | cons c rest ih =>
    rw [replaceFrom, replaceFrom, newTextsAt_concat_of_ne (Nat.ne_of_lt hstart),
      deletesAt_concat_behind hstop, ih (by omega) (by omega)]

/-- The rest of the text that an edit replaces goes. -/
theorem replaceFrom_concat_inside (hbehind : ∀ other ∈ edits, Behind other edit) {offset : Nat}
    (part rest : List Char) (hstart : edit.span.start < offset)
    (hstop : offset + bytes part = edit.span.stop) :
    replaceFrom (edits ++ [edit]) offset (part ++ rest) =
      replaceFrom edits edit.span.stop rest := by
  induction part generalizing offset with
  | nil =>
    rw [bytes, Nat.add_zero] at hstop
    rw [List.nil_append, replaceFrom_concat_behind hstart (by omega), hstop]
  | cons c part ih =>
    have hpos := c.utf8Size_pos
    rw [bytes] at hstop
    have hinside : offset < edit.span.stop := by omega
    rw [List.cons_append, replaceFrom, newTextsAt_concat_of_ne (Nat.ne_of_lt hstart),
      newTextsAt_eq_nil_of_behind hbehind hinside,
      deletesAt_concat_inside (Nat.le_of_lt hstart) hinside, ih (by omega) (by omega)]
    rfl

/-- From the start of an edit on: its new text, and then what the edits behind
it make of the rest. -/
theorem replaceFrom_concat_start (hbehind : ∀ other ∈ edits, Behind other edit)
    (old rest : List Char) (hold : bytes old = edit.span.length) :
    replaceFrom (edits ++ [edit]) edit.span.start (old ++ rest) =
      edit.newText.toList ++ replaceFrom edits edit.span.stop rest := by
  cases old with
  | nil =>
    have hstop : edit.span.stop = edit.span.start := by
      rw [Span.stop, ← hold, bytes, Nat.add_zero]
    rw [List.nil_append, hstop]
    cases rest with
    | nil => exact newTextsAt_concat_start hbehind
    | cons c rest =>
      have hpos := c.utf8Size_pos
      rw [replaceFrom, replaceFrom, newTextsAt_concat_start hbehind,
        deletesAt_concat_behind (Nat.le_of_eq hstop),
        replaceFrom_concat_behind (by omega) (by omega)]
      simp only [List.append_assoc]
  | cons c old =>
    have hpos := c.utf8Size_pos
    rw [bytes] at hold
    have hinside : edit.span.start < edit.span.stop := by
      rw [Span.stop]
      omega
    have hrest := replaceFrom_concat_inside hbehind old rest
      (Nat.lt_add_of_pos_right hpos) (by rw [Span.stop]; omega)
    rw [List.cons_append, replaceFrom, newTextsAt_concat_start hbehind,
      newTextsAt_eq_nil_of_behind hbehind hinside,
      deletesAt_concat_inside (Nat.le_refl _) hinside, hrest]
    simp

/-- An edit in front of the edits that are done already is one edit more of
those done at once. -/
theorem splice_replaceFrom (hbehind : ∀ other ∈ edits, Behind other edit) {text : List Char}
    (hfits : edit.span.FitsIn text) :
    edit.splice (replaceFrom edits 0 text) = replaceFrom (edits ++ [edit]) 0 text := by
  obtain ⟨before, old, after, rfl, hstart, hlength⟩ := Span.fitsIn_iff.mp hfits
  have hstop : 0 + bytes (before ++ old) = edit.span.stop := by
    rw [bytes_append, hstart, hlength, Span.stop, Nat.zero_add]
  have hdone : replaceFrom edits 0 (before ++ old ++ after) =
      before ++ old ++ replaceFrom edits edit.span.stop after := by
    rw [replaceFrom_append (before ++ old) after fun other h => hstop ▸ (hbehind other h).1, hstop]
  have hmore : replaceFrom (edits ++ [edit]) 0 (before ++ old ++ after) =
      before ++ (edit.newText.toList ++ replaceFrom edits edit.span.stop after) := by
    rw [List.append_assoc, replaceFrom_append before (old ++ after), Nat.zero_add, hstart,
      replaceFrom_concat_start hbehind old after hlength]
    intro other hother
    rw [Nat.zero_add, hstart]
    rcases List.mem_append.mp hother with hother | hother
    · exact Nat.le_trans edit.span.start_le_stop (hbehind other hother).1
    · obtain rfl := List.mem_singleton.mp hother
      exact Nat.le_refl _
  have hsplice := Patch.splice_middle before old (replaceFrom edits edit.span.stop after)
    edit.newText
  rw [hstart, hlength] at hsplice
  rw [hdone, hmore, ← List.append_assoc]
  exact hsplice

/-! ## The whole list -/

/-- Edits of which each ends in front of all those before it do one after the
other what they do at once. -/
theorem spliceAll_eq_replaceAtOnce (text : List Char) {edits : List Edit}
    (hbehind : edits.Pairwise Behind) : spliceAll text edits = replaceAtOnce text edits := by
  induction edits using List.reverseRecOn with
  | nil =>
    have h : replaceFrom [] 0 (text ++ []) = text ++ replaceFrom [] (0 + bytes text) [] :=
      replaceFrom_append text [] (by simp)
    simpa [spliceAll, replaceAtOnce, replaceFrom, newTextsAt_eq_nil] using h.symm
  | append_singleton edits edit ih =>
    obtain ⟨hedits, -, hcross⟩ := List.pairwise_append.mp hbehind
    have hlast : ∀ other ∈ edits, Behind other edit := fun other h =>
      hcross other h edit (by simp)
    rw [spliceAll_concat]
    by_cases hfits : edit.span.FitsIn text
    · have hmore : replaceAtOnce text (edits ++ [edit]) =
          replaceFrom ((edits.filter fun other => other.span.FitsIn text) ++ [edit]) 0 text := by
        simp [replaceAtOnce, hfits]
      rw [ih hedits, hmore]
      exact splice_replaceFrom (fun other h => hlast other (List.mem_filter.mp h).1) hfits
    · have hskipped : ¬ edit.span.FitsIn (spliceAll text edits) := by
        rwa [fitsIn_spliceAll_iff fun other h => (hlast other h).1]
      rw [splice_of_not_fitsIn hskipped, ih hedits]
      simp [replaceAtOnce, hfits]

/-- Two edits of a list that do not overlap and do not insert at one place. -/
def Separate (a b : Edit) : Prop :=
  a.span.Disjoint b.span ∧ a.span ≠ b.span

theorem Separate.symm {a b : Edit} (h : Separate a b) : Separate b a :=
  ⟨Or.symm h.1, h.2.symm⟩

/-- A property that no two separate edits share picks at most one edit, so the
order of the list does not matter. -/
theorem filter_eq_of_perm {edits other : List Edit} (hseparate : edits.Pairwise Separate)
    (hperm : other.Perm edits) {p : Edit → Bool}
    (hp : ∀ a b, Separate a b → p a = true → p b = true → False) :
    other.filter p = edits.filter p := by
  have hone : ∀ list : List Edit, list.Pairwise Separate →
      (list.filter p).Pairwise fun _ _ => False := fun list hlist =>
    List.pairwise_filter.mpr (hlist.imp fun {a b} hab => hp a b hab)
  exact (hperm.filter p).eq_of_pairwise (fun _ _ _ _ h => h.elim)
    (hone other ((hperm.pairwise_iff Separate.symm).mpr hseparate)) (hone edits hseparate)

theorem newTextsAt_perm {edits other : List Edit} (hseparate : edits.Pairwise Separate)
    (hperm : other.Perm edits) (offset : Nat) :
    newTextsAt other offset = newTextsAt edits offset := by
  have hinsertions : insertionsAt other offset = insertionsAt edits offset := by
    refine filter_eq_of_perm hseparate hperm fun a b hab ha hb => ?_
    exact hab.2 ((of_decide_eq_true ha).trans (of_decide_eq_true hb).symm)
  have hreplacements : replacementsAt other offset = replacementsAt edits offset := by
    refine filter_eq_of_perm hseparate hperm fun a b hab ha hb => ?_
    have ha' := of_decide_eq_true ha
    have hb' := of_decide_eq_true hb
    rcases hab.1 with hstop | hstop
    all_goals
      rw [Span.stop] at hstop
      omega
  rw [newTextsAt, newTextsAt, hinsertions, hreplacements]

theorem deletesAt_perm {edits other : List Edit} (hperm : other.Perm edits) (offset : Nat) :
    deletesAt other offset = deletesAt edits offset :=
  hperm.any_eq

/-- Edits done at once have no order. -/
theorem replaceAtOnce_perm (text : List Char) {edits other : List Edit}
    (hseparate : edits.Pairwise Separate) (hperm : other.Perm edits) :
    replaceAtOnce text other = replaceAtOnce text edits := by
  have hfitting := hperm.filter fun edit => edit.span.FitsIn text
  have hfrom : ∀ (rest : List Char) (offset : Nat),
      replaceFrom (other.filter fun edit => edit.span.FitsIn text) offset rest =
        replaceFrom (edits.filter fun edit => edit.span.FitsIn text) offset rest := by
    intro rest
    induction rest with
    | nil => exact newTextsAt_perm (hseparate.filter _) hfitting
    | cons c rest ih =>
      intro offset
      rw [replaceFrom, replaceFrom, newTextsAt_perm (hseparate.filter _) hfitting,
        deletesAt_perm hfitting, ih]
  exact hfrom text 0

/-- Edits that do not overlap, and insert behind what they replace wherever
two of them start together: each one ends in front of all those that are
applied before it. -/
theorem pairwise_behind_backToFront {edits : List Edit} (hseparate : edits.Pairwise Separate)
    (hties : edits.Pairwise fun a b => a.span.start = b.span.start → b.span.length = 0) :
    (backToFront edits).Pairwise Behind := by
  have hsorted := pairwise_backToFront hties
  have hapart : (backToFront edits).Pairwise Separate :=
    ((perm_backToFront edits).pairwise_iff Separate.symm).mpr hseparate
  refine (hsorted.and hapart).imp ?_
  rintro a b ⟨⟨hstart, htie⟩, hdisjoint, hspan⟩
  refine ⟨?_, hspan⟩
  rcases hdisjoint with hstop | hstop
  · -- `a` has no room before the start of `b`, so the two start together
    have hends := a.span.start_le_stop
    have hlength := htie (by omega)
    rw [Span.stop, hlength]
    omega
  · exact hstop

theorem toList_applyAll (text : String) (edits : List Edit) :
    (applyAll text edits).toList = spliceAll text.toList (backToFront edits) := by
  rw [applyAll, String.toList_ofList]
  rfl

theorem toList_applyAll_singleton (text : String) (edit : Edit) :
    (applyAll text [edit]).toList = edit.splice text.toList := by
  rw [toList_applyAll, backToFront, List.mergeSort_singleton]
  rfl

/-- Edits with different starts that do not overlap, in whatever order they are
listed: each one ends in front of all those that are applied before it, and the
text after them is the one with all of them done at once. -/
theorem backToFront_of_starts_ne {edits order : List Edit}
    (hedits : edits.Pairwise fun a b => a.span.start ≠ b.span.start ∧ a.span.Disjoint b.span)
    (hperm : order.Perm edits) :
    (backToFront order).Pairwise Behind ∧
      ∀ text, spliceAll text (backToFront order) = replaceAtOnce text edits := by
  have hapart : edits.Pairwise Separate :=
    hedits.imp fun h => ⟨h.2, fun hspan => h.1 (congrArg Span.start hspan)⟩
  have hstarts : order.Pairwise fun a b => a.span.start ≠ b.span.start :=
    (hperm.pairwise_iff Ne.symm).mpr (hedits.imp fun h => h.1)
  have hbehind : (backToFront order).Pairwise Behind :=
    pairwise_behind_backToFront ((hperm.pairwise_iff Separate.symm).mpr hapart)
      (hstarts.imp fun hne htie => absurd htie hne)
  refine ⟨hbehind, fun text => ?_⟩
  rw [spliceAll_eq_replaceAtOnce text hbehind]
  exact replaceAtOnce_perm text hapart ((perm_backToFront order).trans hperm)

end Edit

end LintLayer
