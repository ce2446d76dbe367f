import LintLayer.Action
import LintLayer.Proofs.Batch.Members
import Mathlib.Data.List.Basic

/-!
# Groups of fixes

The fixes of a rule share a group id.  The id is read back by its mark, and
`ruleOfGroup_eq_some_iff` says that this gives exactly the rules that were
written with a name.

A group that holds a fix is never empty.  There are two reasons, and each is
a lemma: a finding that can be fixed has edits on every text
(`edits_ne_nil_of_fixable`), and the selection of a batch takes the first fix
that edits anything (`Batch.select_eq_nil_iff`).
-/

namespace LintLayer

/-! ## Group ids -/

namespace CodeAction

theorem dropMark_eq_some_iff {mark text rest : List Char} :
    dropMark mark text = some rest ↔ text = mark ++ rest := by
  induction mark generalizing text with
  | nil => simp [dropMark]
  | cons m mark ih =>
    cases text with
    | nil => simp [dropMark]
    | cons c text =>
      rw [dropMark, List.cons_append, List.cons.injEq]
      by_cases h : m = c
      · rw [if_pos h, ih]
        exact ⟨fun htext => ⟨h.symm, htext⟩, And.right⟩
      · rw [if_neg h]
        exact ⟨nofun, fun htext => absurd htext.1.symm h⟩

/-- Two rules never share a group. -/
theorem groupOf_inj {rule other : String} : groupOf rule = groupOf other ↔ rule = other := by
  rw [groupOf, groupOf, ← String.toList_inj, String.toList_append, String.toList_append,
    List.append_cancel_left_eq, String.toList_inj]

/-- The group of a rule is read back as the rule, and only groups of rules
with a name are read. -/
theorem ruleOfGroup_eq_some_iff {group rule : String} :
    ruleOfGroup group = some rule ↔ group = groupOf rule ∧ rule ≠ "" := by
  have hgroup : group = groupOf rule ↔ group.toList = groupMark.toList ++ rule.toList := by
    rw [groupOf, ← String.toList_inj, String.toList_append]
  have hname : rule ≠ "" ↔ rule.toList ≠ [] := by
    rw [ne_eq, ne_eq, ← String.toList_inj, String.toList_empty]
  rw [hgroup, hname, ← dropMark_eq_some_iff, ruleOfGroup]
  split
  · rename_i c rest hdrop
    rw [hdrop, Option.some.injEq, Option.some.injEq, ← String.toList_inj, String.toList_ofList]
    constructor
    · intro heq
      exact ⟨heq, heq ▸ List.cons_ne_nil c rest⟩
    · exact And.left
  · rename_i hother
    refine ⟨nofun, ?_⟩
    rintro ⟨hdrop, hrule⟩
    obtain ⟨c, rest, hcons⟩ := List.exists_cons_of_ne_nil hrule
    exact absurd (hdrop.trans (congrArg some hcons)) (hother c rest)

/-- A group that is not the layer's is one that names no rule after the
mark. -/
theorem ruleOfGroup_eq_none_iff {group : String} :
    ruleOfGroup group = none ↔ ∀ rule, rule ≠ "" → group ≠ groupOf rule := by
  rw [Option.eq_none_iff_forall_ne_some]
  refine forall_congr' fun rule => ?_
  rw [ne_eq, ruleOfGroup_eq_some_iff]
  exact ⟨fun h hrule hgroup => h ⟨hgroup, hrule⟩, fun h hboth => h hboth.2 hboth.1⟩

end CodeAction

/-! ## Fixes that edit something -/

/-- A finding that can be fixed has edits, whatever text it is placed on. -/
theorem Problem.edits_ne_nil_of_fixable {table : LineTable} {finding : Finding}
    (h : (Problem.ofFinding table finding).fixable = true) :
    (Problem.ofFinding table finding).edits ≠ [] := by
  have hfixable : finding.fix.any Fix.hasEffect = true := h
  obtain ⟨fix, hfix, heffect⟩ := (Option.any_eq_true _ _).mp hfixable
  obtain ⟨replacement, hreplacement, _⟩ := List.any_eq_true.mp heffect
  have hne : fix.replacements ≠ [] := List.ne_nil_of_mem hreplacement
  simp only [ofFinding, hfix]
  exact fun hnil => hne (List.map_eq_nil_iff.mp hnil)

end LintLayer
