import LintLayer.Proofs.Path.Joining
import Mathlib.Data.List.Infix

/-!
# The directories above a path

The directories above a path are met one after the other, the nearest one first.
Each has the components of the path up to some step: `components_properAncestors`
says that they are the beginnings of the path, without the whole, and that nothing
is above the root.
-/

namespace LintLayer.Path

/-- The beginnings of a list of steps other than the whole, the longest one first.
Nothing is above the root, so that a list that starts with it has no empty
beginning. -/
def properBeginnings (steps : List Component) : List (List Component) :=
  steps.inits.dropLast.reverse.filter fun beginning => beginning ≠ [] ∨ steps.head? ≠ some .root

theorem inits_eq_concat (steps : List Component) :
    steps.inits = steps.inits.dropLast ++ [steps] := by
  rcases List.eq_nil_or_concat steps with rfl | ⟨front, last, rfl⟩
  · rfl
  · simp [List.inits_append]

/-- One more step has all that was there as its longest beginning. -/
theorem properBeginnings_concat (steps : List Component) {step : Component}
    (hstep : step ≠ .root) :
    properBeginnings (steps ++ [step]) = steps :: properBeginnings steps := by
  have hinits : (steps ++ [step]).inits.dropLast.reverse =
      steps :: steps.inits.dropLast.reverse := by
    have hshorter : (steps ++ [step]).inits.dropLast = steps.inits := by
      simp [List.inits_append]
    rw [hshorter, inits_eq_concat, List.reverse_append, List.reverse_singleton,
      List.singleton_append, List.dropLast_concat]
  rw [properBeginnings, hinits, properBeginnings]
  cases steps with
  | nil => simp [hstep]
  | cons first rest => simp

/-- The paths above fitting segments have the proper beginnings of their steps. -/
theorem components_above {head : Head} {segments : List (List Char)} (h : Fits head segments) :
    (above head segments.reverse).map components =
      properBeginnings (head.component?.toList ++ segments.filterMap segmentComponent?) := by
  induction segments using List.reverseRecOn with
  | nil => cases head <;> decide
  | append_singleton segments last ih =>
    have hbefore : Fits head segments := h.left
    rw [List.reverse_append, List.reverse_singleton, List.singleton_append, above,
      List.filterMap_append, List.filterMap_cons]
    cases hcomponent : segmentComponent? last with
    | none =>
      rw [if_pos (segmentComponent?_eq_none_iff.mp hcomponent), ih hbefore]
      simp
    | some step =>
      have hblank : ¬ isBlank last = true := by
        intro hblank
        rw [segmentComponent?_eq_none_iff.mpr hblank] at hcomponent
        cases hcomponent
      have hstep : step ≠ .root := by
        rcases segmentComponent?_eq_some hcomponent with rfl | rfl <;> simp
      rw [if_neg hblank, List.map_cons, ih hbefore, components_ofReversed hbefore,
        List.filterMap_nil, ← List.append_assoc, properBeginnings_concat _ hstep]

/-- The directories above a path, nearest first, have the proper beginnings of its
components. -/
theorem components_properAncestors (path : Path) :
    path.properAncestors.map components = properBeginnings path.components :=
  components_above (fits_view path)

end LintLayer.Path
