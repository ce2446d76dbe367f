import LintLayer.Proofs.Edit.BackToFront
import LintLayer.Proofs.Text.Measure
import Mathlib.Data.List.Nodup

/-!
# Edits as patches of a text

A list of patches cuts a text into parts that stay and parts that are
replaced, without any offset.  `source` is the text before and `target` the
text after all replacements at once; `edits` are the same replacements given
by byte offsets.

`applyChars_edits` is the main statement: applying the edits one after the
other, from the back to the front, gives the target.  An edit at the back
leaves everything in front of it in place, so the offsets of the edits to
come stay right.
-/

namespace LintLayer

/-- A part of a text that stays, and the part after it that is replaced. -/
structure Patch where
  gap : List Char
  old : List Char
  new : String

namespace Patch

open Text

/-- The text before the replacements.  `rest` is the part after the last
patch. -/
def source (rest : List Char) : List Patch → List Char
  | [] => rest
  | patch :: patches => patch.gap ++ patch.old ++ source rest patches

/-- The text after the replacements. -/
def target (rest : List Char) : List Patch → List Char
  | [] => rest
  | patch :: patches => patch.gap ++ patch.new.toList ++ target rest patches

/-- The replacements by byte offsets, in a text in which the first patch is
at byte `position`. -/
def edits (position : Nat) : List Patch → List Edit
  | [] => []
  | patch :: patches =>
    ⟨⟨position + bytes patch.gap, bytes patch.old⟩, patch.new⟩ ::
      edits (position + bytes patch.gap + bytes patch.old) patches

/-- An edit whose span is the middle of three parts replaces the middle. -/
theorem splice_middle (before old after : List Char) (new : String) :
    Edit.splice ⟨⟨bytes before, bytes old⟩, new⟩ (before ++ old ++ after) =
      before ++ new.toList ++ after := by
  simp only [Edit.splice, Edit.splice?, List.append_assoc, cut?_bytes_append,
    Option.bind_eq_bind, Option.bind_some, Option.pure_def, Option.getD_some]

/-- All edits, the last one first, turn the source into the target behind
any text. -/
theorem foldl_splice_edits (patches : List Patch) (rest before : List Char) :
    (edits (bytes before) patches).reverse.foldl (fun current edit => edit.splice current)
      (before ++ source rest patches) = before ++ target rest patches := by
  induction patches generalizing before with
  | nil => rfl
  | cons patch patches ih =>
    have hposition : bytes before + bytes patch.gap + bytes patch.old =
        bytes (before ++ patch.gap ++ patch.old) := by
      simp only [bytes_append]
    have hlater := ih (before ++ patch.gap ++ patch.old)
    rw [edits, List.reverse_cons, List.foldl_append, hposition]
    have hsource : before ++ source rest (patch :: patches) =
        before ++ patch.gap ++ patch.old ++ source rest patches := by
      simp only [source, List.append_assoc]
    rw [hsource, hlater]
    have hfirst := splice_middle (before ++ patch.gap) patch.old (target rest patches) patch.new
    rw [bytes_append] at hfirst
    simpa only [List.foldl_cons, List.foldl_nil, target, List.append_assoc] using hfirst

end Patch

namespace Edit

/-- The edits of a list in ascending order are taken in reverse. -/
theorem backToFront_of_ascending {edits : List Edit}
    (h : edits.Pairwise fun a b => a.span.start < b.span.start) :
    backToFront edits = edits.reverse := by
  have hsorted : (backToFront edits).Pairwise fun a b => notBefore a b = true :=
    List.pairwise_mergeSort notBefore_trans notBefore_total _
  have hreversed : edits.reverse.Pairwise fun a b => notBefore a b = true := by
    rw [List.pairwise_reverse]
    exact h.imp fun hlt => decide_eq_true (Nat.le_of_lt hlt)
  have hperm : (backToFront edits).Perm edits.reverse :=
    (perm_backToFront edits).trans (List.reverse_perm edits).symm
  -- members with equal starts are equal, since the starts ascend strictly
  refine List.Perm.eq_of_pairwise ?_ hsorted hreversed hperm
  intro a b ha hb hab hba
  have ha' : a ∈ edits := List.mem_reverse.mp (hperm.mem_iff.mp ha)
  have hb' : b ∈ edits := List.mem_reverse.mp hb
  have hnodup : (edits.map fun edit => edit.span.start).Nodup :=
    List.pairwise_map.mpr (h.imp fun hlt => Nat.ne_of_lt hlt)
  simp only [notBefore, decide_eq_true_eq] at hab hba
  exact List.inj_on_of_nodup_map hnodup ha' hb' (Nat.le_antisymm hba hab)

end Edit

/-- Applying edits in ascending order, given as patches, gives the text
after all replacements. -/
theorem Patch.applyChars_edits (patches : List Patch) (rest : List Char)
    (hascending : (edits 0 patches).Pairwise fun a b => a.span.start < b.span.start) :
    Edit.applyChars (source rest patches) (edits 0 patches) = target rest patches := by
  have h := foldl_splice_edits patches rest []
  simp only [Text.bytes, List.nil_append] at h
  rw [Edit.applyChars, Edit.backToFront_of_ascending hascending]
  exact h

end LintLayer
