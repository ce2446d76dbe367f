import LintLayer.Runner
import Mathlib.Data.List.TakeWhile

/-!
# The directory of a path

The components of the directory of a file are those of the file without the
last one, so two spellings of one file have the same directory.

* Splitting a text at its slashes undoes joining pieces without slashes
  (`splitOn_joinWith`).
* The segments of a path fit its head (`fits_view`), and a path that is put
  together from a head and fitting segments has their components
  (`components_ofReversed`).
* `components_directory` is the result.
-/

namespace LintLayer.Text

/-! ## Splitting and joining -/

variable {separator : Char}

theorem splitOn_separator_cons (text : List Char) :
    splitOn separator (separator :: text) = [] :: splitOn separator text := by
  rw [splitOn, if_pos rfl]

/-- The pieces hold no separator. -/
theorem separator_notMem_of_mem_splitOn {text piece : List Char}
    (h : piece ∈ splitOn separator text) : separator ∉ piece := by
  induction text generalizing piece with
  | nil =>
    rcases List.mem_singleton.mp h with rfl
    simp
  | cons c text ih =>
    rw [splitOn] at h
    split at h
    · rcases List.mem_cons.mp h with rfl | hrest
      · simp
      · exact ih hrest
    · rename_i hne
      split at h
      · rcases List.mem_singleton.mp h with rfl
        simpa using Ne.symm hne
      · rename_i first pieces hpieces
        rcases List.mem_cons.mp h with rfl | hrest
        · have hfirst : separator ∉ first := ih (by rw [hpieces]; simp)
          simp [Ne.symm hne, hfirst]
        · exact ih (by rw [hpieces]; simp [hrest])

/-- A piece that is followed by a separator, or by the end, is split off. -/
theorem splitOn_piece_append {piece : List Char} (hpiece : separator ∉ piece) (text : List Char)
    {first : List Char} {pieces : List (List Char)}
    (htext : splitOn separator text = first :: pieces) :
    splitOn separator (piece ++ text) = (piece ++ first) :: pieces := by
  induction piece with
  | nil => exact htext
  | cons c piece ih =>
    have hc : c ≠ separator := by
      rintro rfl
      simp at hpiece
    have hrest : separator ∉ piece := fun hmem => hpiece (List.mem_cons_of_mem c hmem)
    rw [List.cons_append, splitOn, if_neg hc, ih hrest]
    rfl

/-- Pieces without separators come back from their joined text. -/
theorem splitOn_joinWith {pieces : List (List Char)} (hne : pieces ≠ [])
    (hpieces : ∀ piece ∈ pieces, separator ∉ piece) :
    splitOn separator (joinWith separator pieces) = pieces := by
  induction pieces with
  | nil => exact absurd rfl hne
  | cons piece pieces ih =>
    have hpiece : separator ∉ piece := hpieces piece (by simp)
    cases pieces with
    | nil =>
      have hsplit := splitOn_piece_append hpiece [] rfl
      rw [List.append_nil] at hsplit
      exact hsplit
    | cons next pieces =>
      have htail : splitOn separator (joinWith separator (next :: pieces)) = next :: pieces :=
        ih (by simp) (fun other hother => hpieces other (List.mem_cons_of_mem piece hother))
      have hsplit := splitOn_piece_append hpiece
        (separator :: joinWith separator (next :: pieces)) (splitOn_separator_cons _)
      rw [List.append_nil, htail] at hsplit
      exact hsplit

/-- The first piece is the whole text, or a separator comes after it. -/
theorem text_of_splitOn {text first : List Char} {pieces : List (List Char)}
    (h : splitOn separator text = first :: pieces) :
    (text = first ∧ pieces = []) ∨ ∃ rest, text = first ++ separator :: rest := by
  induction text generalizing first pieces with
  | nil =>
    simp only [splitOn, List.cons.injEq] at h
    exact Or.inl ⟨h.1, h.2.symm⟩
  | cons c text ih =>
    rw [splitOn] at h
    split at h
    · rename_i hc
      simp only [List.cons.injEq] at h
      exact Or.inr ⟨text, by rw [← h.1, hc, List.nil_append]⟩
    · cases hrest : splitOn separator text with
      | nil =>
        cases text with
        | nil => simp [splitOn] at hrest
        | cons d text =>
          rw [splitOn] at hrest
          split at hrest
          · simp at hrest
          · split at hrest <;> simp at hrest
      | cons piece others =>
        rw [hrest] at h
        simp only [List.cons.injEq] at h
        rcases ih hrest with ⟨htext, hothers⟩ | ⟨rest, htext⟩
        · exact Or.inl ⟨by rw [htext, h.1], by rw [← h.2, hothers]⟩
        · exact Or.inr ⟨rest, by rw [htext, ← h.1, List.cons_append]⟩

end LintLayer.Text

namespace LintLayer.Path

/-! ## Heads and segments -/

/-- Segments that can follow a head.  After a leading `.` comes a slash, and
without a head the text starts with a segment that is not blank, unless it
has no other segments either. -/
structure Fits (head : Head) (segments : List (List Char)) : Prop where
  noSlash : ∀ segment ∈ segments, '/' ∉ segment
  here : head = .here → ∀ first ∈ segments.head?, first = []
  none : head = .none → ∀ first ∈ segments.head?, isBlank first = true → segments = [first]

/-- Segments still fit when some are taken from their end. -/
theorem Fits.left {head : Head} {segments dropped : List (List Char)}
    (h : Fits head (segments ++ dropped)) : Fits head segments := by
  have hhead : ∀ first ∈ segments.head?, first ∈ (segments ++ dropped).head? := by
    intro first hfirst
    rw [List.head?_append, Option.mem_def.mp hfirst, Option.some_or]
    exact rfl
  refine ⟨?_, ?_, ?_⟩
  · intro segment hsegment
    exact h.noSlash segment (List.mem_append_left dropped hsegment)
  · intro hhere first hfirst
    exact h.here hhere first (hhead first hfirst)
  · intro hnone first hfirst hblank
    have hall := h.none hnone first (hhead first hfirst) hblank
    cases segments with
    | nil => simp at hfirst
    | cons segment segments =>
      simp only [List.cons_append, List.cons.injEq, List.append_eq_nil_iff] at hall
      rw [hall.1, hall.2.1]

theorem fits_view (path : Path) : Fits path.view.1 path.view.2 := by
  unfold view
  split
  · exact ⟨fun _ => Text.separator_notMem_of_mem_splitOn, by simp, by simp⟩
  · exact ⟨by simp, by simp, by simp⟩
  · rename_i rest _
    refine ⟨fun _ => Text.separator_notMem_of_mem_splitOn, ?_, by simp⟩
    rw [Text.splitOn_separator_cons]
    simp
  · rename_i chars hroot hdot hhere
    refine ⟨fun _ => Text.separator_notMem_of_mem_splitOn, by simp, ?_⟩
    intro _ first hfirst hblank
    obtain ⟨pieces, hpieces⟩ := List.head?_eq_some_iff.mp (Option.mem_def.mp hfirst)
    -- a blank first segment with a slash after it would have been read as a head
    rcases Text.text_of_splitOn hpieces with ⟨htext, hnil⟩ | ⟨rest, htext⟩
    · rw [hpieces, hnil]
    · have hcases : first = [] ∨ first = ['.'] := by simpa [isBlank] using hblank
      rcases hcases with rfl | rfl
      · exact absurd htext (hroot rest)
      · exact absurd htext (hhere rest)

/-- A text whose first segment is not blank has no head. -/
theorem view_of_first {chars first : List Char} {pieces : List (List Char)}
    (hsplit : Text.splitOn '/' chars = first :: pieces) (hfirst : isBlank first = false) :
    view ⟨String.ofList chars⟩ = (.none, first :: pieces) := by
  simp only [view, String.toList_ofList]
  split
  · rw [Text.splitOn_separator_cons] at hsplit
    simp only [List.cons.injEq] at hsplit
    simp [← hsplit.1, isBlank] at hfirst
  · have hdot : Text.splitOn '/' ['.'] = [['.']] := rfl
    simp only [hdot, List.cons.injEq] at hsplit
    simp [← hsplit.1, isBlank] at hfirst
  · rename_i rest
    have hdot : Text.splitOn '/' ('.' :: '/' :: rest) = ['.'] :: Text.splitOn '/' rest := by
      simp [Text.splitOn]
    simp only [hdot, List.cons.injEq] at hsplit
    simp [← hsplit.1, isBlank] at hfirst
  · rw [hsplit]

/-! ## Paths from heads and segments -/

theorem segmentComponent?_eq_none_iff {segment : List Char} :
    segmentComponent? segment = none ↔ isBlank segment = true := by
  unfold segmentComponent?
  split
  · simp_all
  · split <;> simp_all

/-- Blank segments have no components. -/
theorem filterMap_blanks {blanks : List (List Char)}
    (h : ∀ segment ∈ blanks, isBlank segment = true) :
    blanks.filterMap segmentComponent? = [] := by
  rw [List.filterMap_eq_nil_iff]
  intro segment hsegment
  exact segmentComponent?_eq_none_iff.mpr (h segment hsegment)

/-- Segments are a part that does not end blank, and blanks after it. -/
theorem exists_trimEnd (segments : List (List Char)) :
    ∃ kept blanks, segments = kept ++ blanks ∧ (∀ segment ∈ blanks, isBlank segment = true) ∧
      (trimEnd segments.reverse).reverse = kept ∧
      ∀ last ∈ kept.getLast?, isBlank last = false := by
  refine ⟨(trimEnd segments.reverse).reverse, (segments.reverse.takeWhile isBlank).reverse,
    ?_, ?_, rfl, ?_⟩
  · rw [trimEnd, ← List.reverse_append, List.takeWhile_append_dropWhile, List.reverse_reverse]
  · intro segment hsegment
    exact List.all_eq_true.mp List.all_takeWhile segment (List.mem_reverse.mp hsegment)
  · intro last hlast
    rw [List.getLast?_reverse, trimEnd] at hlast
    have hnot := List.head?_dropWhile_not isBlank segments.reverse
    rw [Option.mem_def.mp hlast] at hnot
    simpa using hnot

/-- A path that is put together from a head and fitting segments has their
components. -/
theorem components_ofReversed {head : Head} {segments : List (List Char)}
    (h : Fits head segments) :
    (ofReversed head segments.reverse).components =
      head.component?.toList ++ segments.filterMap segmentComponent? := by
  obtain ⟨kept, blanks, hsegments, hblanks, hkept, hlast⟩ := exists_trimEnd segments
  have hfits : Fits head kept := by
    rw [hsegments] at h
    exact h.left
  have hcomponents : segments.filterMap segmentComponent? = kept.filterMap segmentComponent? := by
    rw [hsegments, List.filterMap_append, filterMap_blanks hblanks, List.append_nil]
  rw [ofReversed, hkept, hcomponents]
  cases kept with
  | nil => cases head <;> rfl
  | cons first rest =>
    have hjoin : Text.splitOn '/' (Text.joinWith '/' (first :: rest)) = first :: rest :=
      Text.splitOn_joinWith (by simp) hfits.noSlash
    cases head with
    | root => simp [components, view, Head.chars, Head.component?, hjoin]
    | here =>
      -- the first segment is empty, and it is not the last one
      have hfirst : first = [] := hfits.here rfl first rfl
      cases rest with
      | nil => simp [hfirst, isBlank] at hlast
      | cons second rest =>
        subst hfirst
        have htext : Text.joinWith '/' ([] :: second :: rest) =
            '/' :: Text.joinWith '/' (second :: rest) := rfl
        rw [htext] at hjoin
        simp [components, view, Head.chars, Head.component?, htext, hjoin]
    | none =>
      have hfirst : isBlank first = false := by
        cases hblank : isBlank first with
        | false => rfl
        | true =>
          have honly := hfits.none rfl first rfl hblank
          rw [honly] at hlast
          exact hblank.symm.trans (hlast first rfl)
      simp [components, Head.chars, view_of_first hjoin hfirst, Head.component?]

/-! ## The directory -/

/-- The nearest path above stands before the last segment that is not
blank. -/
theorem nearestAbove?_eq (head : Head) (reversed : List (List Char)) :
    nearestAbove? head reversed =
      match trimEnd reversed with
      | [] => if head = .here then some ⟨""⟩ else none
      | _ :: rest => some (ofReversed head rest) := by
  induction reversed with
  | nil => rfl
  | cons segment rest ih =>
    rw [nearestAbove?, trimEnd, List.dropWhile_cons]
    cases hblank : isBlank segment with
    | true => simpa [trimEnd] using ih
    | false => rfl

theorem components_here : components ⟨"."⟩ = [.here] := by
  decide

/-- A path of fitting segments has no components only if it has no text. -/
theorem text_ofReversed_eq_empty {head : Head} {segments : List (List Char)}
    (h : Fits head segments) (hnone : (ofReversed head segments.reverse).components = []) :
    (ofReversed head segments.reverse).text = "" := by
  rw [components_ofReversed h] at hnone
  obtain ⟨hhead, hsegments⟩ := List.append_eq_nil_iff.mp hnone
  have hblank : ∀ segment ∈ segments.reverse, isBlank segment = true := by
    intro segment hsegment
    have hnil := List.filterMap_eq_nil_iff.mp hsegments segment (List.mem_reverse.mp hsegment)
    exact segmentComponent?_eq_none_iff.mp hnil
  have htrim : trimEnd segments.reverse = [] := List.dropWhile_eq_nil_iff.mpr hblank
  cases head with
  | root => simp [Head.component?] at hhead
  | here => simp [Head.component?] at hhead
  | none => simp [ofReversed, htrim, Head.chars, Text.joinWith]

/-- The directory of a path has the components of the path without the last
one.  If none are left, it is the directory `.`. -/
theorem components_directory (file : Path) :
    file.directory.components =
      if file.components.dropLast = [] then [.here] else file.components.dropLast := by
  have hfits := fits_view file
  have hcomponents : file.components =
      file.view.1.component?.toList ++ file.view.2.filterMap segmentComponent? := rfl
  have hparent : file.parent? = nearestAbove? file.view.1 file.view.2.reverse := rfl
  unfold directory
  generalize file.view.1 = head at *
  generalize file.view.2 = segments at *
  obtain ⟨kept, blanks, hsegments, hblanks, hkept, hlast⟩ := exists_trimEnd segments
  rw [hsegments, List.filterMap_append, filterMap_blanks hblanks, List.append_nil] at hcomponents
  rw [nearestAbove?_eq, ← List.reverse_reverse (trimEnd segments.reverse), hkept] at hparent
  rcases List.eq_nil_or_concat kept with rfl | ⟨front, last, rfl⟩
  · -- nothing but a head: there is no directory to name
    have hdropLast : file.components.dropLast = [] := by
      rw [hcomponents]
      cases head <;> rfl
    rw [if_pos hdropLast, hparent]
    cases head <;> exact components_here
  · rw [List.concat_eq_append] at *
    have hfront : Fits head front := by
      rw [hsegments, List.append_assoc] at hfits
      exact hfits.left
    obtain ⟨component, hcomponent⟩ : ∃ component, segmentComponent? last = some component := by
      rw [← Option.ne_none_iff_exists']
      intro hnone
      have hblank := segmentComponent?_eq_none_iff.mp hnone
      rw [hlast last (by simp)] at hblank
      simp at hblank
    have hdropLast : file.components.dropLast =
        (ofReversed head front.reverse).components := by
      rw [hcomponents, components_ofReversed hfront, List.filterMap_append, List.filterMap_cons,
        hcomponent, List.filterMap_nil, ← List.append_assoc, List.dropLast_concat]
    have hfound : file.parent? = some (ofReversed head front.reverse) := by
      rw [hparent, List.reverse_append, List.reverse_singleton]
      rfl
    rw [hfound, hdropLast]
    by_cases htext : (ofReversed head front.reverse).text = ""
    · have hempty : (ofReversed head front.reverse).components = [] := by
        rw [show ofReversed head front.reverse = ⟨""⟩ from congrArg Path.mk htext]
        decide
      simp only [htext, hempty, if_true, components_here]
    · have hsome : (ofReversed head front.reverse).components ≠ [] :=
        fun hnone => htext (text_ofReversed_eq_empty hfront hnone)
      simp only [htext, hsome, if_false]

end LintLayer.Path
