import LintLayer.Text.Measure

/-!
# Lengths, cuts and fits

The laws of the two lengths of a text.  Both are additive, and every character
counts at least one in each of them.

There are three groups.

* The lengths.  `bytes_append` and `units_append` split them.
* The cut.  `cut?_bytes_append` cuts a text after a part, and `slice_append`
  reads the middle of three parts.
* The fit.  `fitUnits_append_of_le` takes a whole part that fits, and
  `fitUnits_append_of_lt` stops inside a part that does not.

The two lengths and the two fits are the same up to the width of a character.
What does not depend on it is proved once, for `widthBy` and `fitBy`.
-/

namespace LintLayer.Text

/-! ## The lengths -/

theorem unitWidth_pos (c : Char) : 0 < unitWidth c := by
  unfold unitWidth
  split <;> omega

/-- The length of a text by the width of its characters. -/
def widthBy (width : Char → Nat) : List Char → Nat
  | [] => 0
  | c :: cs => width c + widthBy width cs

theorem bytes_eq_widthBy (cs : List Char) : bytes cs = widthBy Char.utf8Size cs := by
  induction cs with
  | nil => rfl
  | cons c cs ih => rw [bytes, widthBy, ih]

theorem units_eq_widthBy (cs : List Char) : units cs = widthBy unitWidth cs := by
  induction cs with
  | nil => rfl
  | cons c cs ih => rw [units, widthBy, ih]

theorem widthBy_append (width : Char → Nat) (before after : List Char) :
    widthBy width (before ++ after) = widthBy width before + widthBy width after := by
  induction before with
  | nil => simp [widthBy]
  | cons c before ih =>
    simp only [List.cons_append, widthBy, ih]
    omega

@[simp] theorem bytes_append (before after : List Char) :
    bytes (before ++ after) = bytes before + bytes after := by
  simp only [bytes_eq_widthBy, widthBy_append]

@[simp] theorem units_append (before after : List Char) :
    units (before ++ after) = units before + units after := by
  simp only [units_eq_widthBy, widthBy_append]

/-- Only the empty text has no bytes. -/
theorem eq_nil_of_bytes_eq_zero {cs : List Char} (h : bytes cs = 0) : cs = [] := by
  cases cs with
  | nil => rfl
  | cons c cs =>
    have hpos := c.utf8Size_pos
    simp only [bytes] at h
    omega

/-- Two beginnings of one text, compared by an additive length that only the
empty text has none of: the shorter one is a beginning of the longer. -/
theorem exists_append_of_length_le {length : List Char → Nat}
    (hadd : ∀ before after, length (before ++ after) = length before + length after)
    (hzero : ∀ cs, length cs = 0 → cs = [])
    {before after before' after' : List Char} (h : before ++ after = before' ++ after')
    (hle : length before ≤ length before') :
    ∃ middle, before' = before ++ middle ∧ after = middle ++ after' := by
  rcases List.append_eq_append_iff.mp h with ⟨middle, hbefore, hafter⟩ | ⟨middle, hbefore, hafter⟩
  · exact ⟨middle, hbefore, hafter⟩
  · have hnil : middle = [] := by
      apply hzero
      rw [hbefore, hadd] at hle
      omega
    subst hnil
    exact ⟨[], by simpa using hbefore.symm, by simpa using hafter.symm⟩

theorem exists_append_of_bytes_le {before after before' after' : List Char}
    (h : before ++ after = before' ++ after') (hle : bytes before ≤ bytes before') :
    ∃ middle, before' = before ++ middle ∧ after = middle ++ after' :=
  exists_append_of_length_le bytes_append (fun _ => eq_nil_of_bytes_eq_zero) h hle

/-- A character below U+0080 is one byte and one code unit. -/
theorem utf8Size_and_unitWidth_of_lt {c : Char} (h : c.toNat < 0x80) :
    c.utf8Size = 1 ∧ unitWidth c = 1 := by
  constructor
  · have hval : c.val ≤ 0x7f := by
      rw [UInt32.le_iff_toNat_le]
      change c.toNat ≤ 127
      omega
    simp [Char.utf8Size, hval]
  · unfold unitWidth
    rw [if_pos (by omega)]

/-! ## The cut -/

@[simp] theorem cut?_zero (cs : List Char) : cut? 0 cs = some ([], cs) := by
  cases cs <;> rfl

/-- A text can be cut after every one of its beginnings. -/
@[simp] theorem cut?_bytes_append (before after : List Char) :
    cut? (bytes before) (before ++ after) = some (before, after) := by
  induction before with
  | nil => simp [bytes]
  | cons c before ih =>
    have hpos := c.utf8Size_pos
    obtain ⟨n, hn⟩ : ∃ n, bytes (c :: before) = n + 1 :=
      ⟨bytes (c :: before) - 1, by simp only [bytes]; omega⟩
    have hrest : n + 1 - c.utf8Size = bytes before := by
      simp only [bytes] at hn
      omega
    have hfits : c.utf8Size ≤ n + 1 := by
      simp only [bytes] at hn
      omega
    rw [hn, List.cons_append, cut?, if_pos hfits, hrest, ih]
    rfl

/-- A text has one beginning of each length. -/
theorem append_inj_of_bytes_eq {before after before' after' : List Char}
    (h : before ++ after = before' ++ after') (hbytes : bytes before = bytes before') :
    before = before' ∧ after = after' := by
  have hcut := cut?_bytes_append before after
  rw [h, hbytes, cut?_bytes_append] at hcut
  simpa [eq_comm] using hcut

/-- The slice between two cuts is the part between them. -/
theorem slice?_append (before middle after : List Char) :
    slice? (bytes before) (bytes before + bytes middle) (before ++ middle ++ after) =
      some middle := by
  have hlength : bytes before + bytes middle - bytes before = bytes middle := by omega
  rw [slice?, List.append_assoc, cut?_bytes_append]
  simp only [hlength, Option.bind_eq_bind, Option.bind_some, cut?_bytes_append]
  rfl

theorem slice_append (before middle after : List Char) :
    slice (bytes before) (bytes before + bytes middle) (before ++ middle ++ after) = middle := by
  rw [slice, slice?_append, Option.getD_some]

/-! ## The fit -/

/-- The longest beginning of at most `n` by the width of its characters. -/
def fitBy (width : Char → Nat) : Nat → List Char → List Char
  | _, [] => []
  | n, c :: cs => if width c ≤ n then c :: fitBy width (n - width c) cs else []

theorem fitUnits_eq_fitBy (n : Nat) (cs : List Char) : fitUnits n cs = fitBy unitWidth n cs := by
  induction cs generalizing n with
  | nil => rfl
  | cons c cs ih => rw [fitUnits, fitBy, ih]

theorem fitBytes_eq_fitBy (n : Nat) (cs : List Char) :
    fitBytes n cs = fitBy Char.utf8Size n cs := by
  induction cs generalizing n with
  | nil => rfl
  | cons c cs ih => rw [fitBytes, fitBy, ih]

section Width

variable {width : Char → Nat}

theorem fitBy_append_of_le {n : Nat} {before : List Char} (after : List Char)
    (h : widthBy width before ≤ n) :
    fitBy width n (before ++ after) =
      before ++ fitBy width (n - widthBy width before) after := by
  induction before generalizing n with
  | nil => simp [widthBy]
  | cons c before ih =>
    simp only [widthBy] at h
    have hfits : width c ≤ n := by omega
    have hrest : n - width c - widthBy width before = n - widthBy width (c :: before) := by
      simp only [widthBy]
      omega
    rw [List.cons_append, fitBy, if_pos hfits, ih (by omega), hrest]
    rfl

theorem exists_fitBy_append (n : Nat) (cs : List Char) :
    ∃ rest, cs = fitBy width n cs ++ rest := by
  induction cs generalizing n with
  | nil => exact ⟨[], rfl⟩
  | cons c cs ih =>
    rw [fitBy]
    split
    · obtain ⟨rest, hrest⟩ := ih (n - width c)
      exact ⟨rest, by rw [List.cons_append, ← hrest]⟩
    · exact ⟨c :: cs, rfl⟩

theorem widthBy_fitBy_le (n : Nat) (cs : List Char) : widthBy width (fitBy width n cs) ≤ n := by
  induction cs generalizing n with
  | nil => exact Nat.zero_le n
  | cons c cs ih =>
    rw [fitBy]
    split
    · have hrest := ih (n - width c)
      rw [widthBy]
      omega
    · exact Nat.zero_le n

end Width

/-- A part that fits is taken whole. -/
theorem fitUnits_append_of_le {n : Nat} {before : List Char} (after : List Char)
    (h : units before ≤ n) :
    fitUnits n (before ++ after) = before ++ fitUnits (n - units before) after := by
  rw [units_eq_widthBy] at h
  simp only [fitUnits_eq_fitBy, units_eq_widthBy, fitBy_append_of_le after h]

theorem fitBytes_append_of_le {n : Nat} {before : List Char} (after : List Char)
    (h : bytes before ≤ n) :
    fitBytes n (before ++ after) = before ++ fitBytes (n - bytes before) after := by
  rw [bytes_eq_widthBy] at h
  simp only [fitBytes_eq_fitBy, bytes_eq_widthBy, fitBy_append_of_le after h]

/-- A part that does not fit ends the fit. -/
theorem fitUnits_append_of_lt {n : Nat} {before : List Char} (after : List Char)
    (h : n < units before) : fitUnits n (before ++ after) = fitUnits n before := by
  induction before generalizing n with
  | nil => simp [units] at h
  | cons c before ih =>
    simp only [units] at h
    rw [List.cons_append, fitUnits, fitUnits]
    split
    · rename_i hfits
      rw [ih (by omega)]
    · rfl

/-- The fit is a beginning of the text. -/
theorem exists_fitUnits_append (n : Nat) (cs : List Char) :
    ∃ rest, cs = fitUnits n cs ++ rest := by
  rw [fitUnits_eq_fitBy]
  exact exists_fitBy_append n cs

theorem exists_fitBytes_append (n : Nat) (cs : List Char) :
    ∃ rest, cs = fitBytes n cs ++ rest := by
  rw [fitBytes_eq_fitBy]
  exact exists_fitBy_append n cs

theorem units_fitUnits_le (n : Nat) (cs : List Char) : units (fitUnits n cs) ≤ n := by
  rw [fitUnits_eq_fitBy, units_eq_widthBy]
  exact widthBy_fitBy_le n cs

theorem bytes_fitBytes_le (n : Nat) (cs : List Char) : bytes (fitBytes n cs) ≤ n := by
  rw [fitBytes_eq_fitBy, bytes_eq_widthBy]
  exact widthBy_fitBy_le n cs

theorem fitUnits_zero (cs : List Char) : fitUnits 0 cs = [] := by
  cases cs with
  | nil => rfl
  | cons c cs =>
    have hpos := unitWidth_pos c
    rw [fitUnits, if_neg (by omega)]

/-- The fit of exactly the units of a beginning is that beginning. -/
@[simp] theorem fitUnits_units_append (before after : List Char) :
    fitUnits (units before) (before ++ after) = before := by
  rw [fitUnits_append_of_le after (Nat.le_refl _), Nat.sub_self, fitUnits_zero, List.append_nil]

theorem fitBytes_bytes_append (before after : List Char) :
    fitBytes (bytes before) (before ++ after) = before := by
  have hnone : bytes (fitBytes 0 after) = 0 := Nat.le_zero.mp (bytes_fitBytes_le 0 after)
  rw [fitBytes_append_of_le after (Nat.le_refl _), Nat.sub_self, eq_nil_of_bytes_eq_zero hnone,
    List.append_nil]

/-- The fit in a plain text has `n` bytes, or all of them. -/
theorem bytes_fitUnits_of_isAscii {n : Nat} {cs : List Char} (h : isAscii cs = true) :
    bytes (fitUnits n cs) = min n (bytes cs) := by
  induction cs generalizing n with
  | nil => simp [fitUnits, bytes]
  | cons c cs ih =>
    simp only [isAscii, List.all_cons, Bool.and_eq_true, decide_eq_true_eq] at h
    obtain ⟨hbyte, hunit⟩ := utf8Size_and_unitWidth_of_lt h.1
    rw [fitUnits, hunit]
    split
    · rename_i hfits
      rw [bytes, bytes, hbyte, ih h.2]
      omega
    · rename_i hfits
      have hzero : n = 0 := by omega
      simp [hzero, bytes]

end LintLayer.Text
