import LintLayer.CommandLine.Run
import LintLayer.Proofs.Path.Place

/-!
# Normal paths as a normal form

Normalizing walks along the components of a path and keeps the steps that no
later `..` takes back.  What is kept depends on a joined path in two stages: first
the base is walked, then the tail goes on from what was kept.  The steps that are
kept are all that the normalized path has, so a walk that starts there goes on in
the same way.

* `kept_normalize` says that a normalized path keeps what the path itself keeps.
* `kept_join` says that a walk along a joined path is the walk along its base,
  continued.
* `normalize_congruent` has the laws of a normal form, and what they mean for the
  findings of the files that a run is asked for.
-/

namespace LintLayer.Path

/-! ## The steps that are kept -/

/-- The steps of a path that no later `..` takes back, the last one first. -/
def kept (path : Path) : List Component :=
  path.components.foldl normalStep []

theorem normalize_eq (path : Path) : path.normalize = ofComponents path.kept.reverse := rfl

theorem normalize_eq_of_kept {p q : Path} (h : p.kept = q.kept) : p.normalize = q.normalize := by
  rw [normalize_eq, normalize_eq, h]

/-- A step that is kept as it is. -/
def Component.IsPlain (step : Component) : Prop :=
  step ≠ .here ∧ step ≠ .up

theorem normalStep_of_isPlain {step : Component} (h : step.IsPlain) (taken : List Component) :
    normalStep taken step = step :: taken := by
  cases step with
  | root => rfl
  | here => exact absurd rfl h.1
  | up => exact absurd rfl h.2
  | name text => rfl

/-- A walk along plain steps keeps them all. -/
theorem foldl_normalStep_of_isPlain {steps : List Component} (h : ∀ step ∈ steps, step.IsPlain)
    (taken : List Component) : steps.foldl normalStep taken = steps.reverse ++ taken := by
  induction steps generalizing taken with
  | nil => rfl
  | cons step steps ih =>
    have hrest : ∀ other ∈ steps, other.IsPlain :=
      fun other hother => h other (List.mem_cons_of_mem step hother)
    rw [List.foldl_cons, normalStep_of_isPlain (h step List.mem_cons_self), ih hrest,
      List.reverse_cons, List.append_assoc, List.singleton_append]

/-- One step keeps only plain steps, if only plain steps were kept before. -/
theorem isPlain_of_mem_normalStep {taken : List Component} (h : ∀ step ∈ taken, step.IsPlain)
    (next : Component) : ∀ step ∈ normalStep taken next, step.IsPlain := by
  intro step hstep
  cases next with
  | here => exact h step hstep
  | up => exact h step (List.mem_of_mem_tail hstep)
  | root | name =>
    rcases List.mem_cons.mp hstep with rfl | hbefore
    · simp [Component.IsPlain]
    · exact h step hbefore

theorem isPlain_of_mem_kept (path : Path) : ∀ step ∈ path.kept, step.IsPlain := by
  unfold kept
  induction path.components using List.reverseRecOn with
  | nil => simp
  | append_singleton steps step ih =>
    rw [List.foldl_append]
    exact isPlain_of_mem_normalStep ih step

/-- A normalized path has the kept steps as its components. -/
theorem components_normalize_eq (path : Path) :
    path.normalize.components = path.kept.reverse := by
  have hkept : path.kept =
      (path.leadsTo []).map .name ++ anchorOf path.components :=
    foldl_normalStep (root_notMem_tail_components path)
  have hanchor : (anchorOf path.components).reverse = anchorOf path.components := by
    unfold anchorOf
    split <;> rfl
  rw [components_normalize, hkept, List.reverse_append, hanchor, anchorOf_components,
    List.map_reverse]

theorem isPlain_of_mem_normalize (path : Path) :
    ∀ step ∈ path.normalize.components, step.IsPlain := by
  intro step hstep
  rw [components_normalize_eq, List.mem_reverse] at hstep
  exact isPlain_of_mem_kept path step hstep

theorem kept_normalize (path : Path) : path.normalize.kept = path.kept := by
  rw [kept, foldl_normalStep_of_isPlain (isPlain_of_mem_normalize path), List.append_nil,
    components_normalize_eq, List.reverse_reverse]

/-- A path is its own normal form exactly if all its steps are plain. -/
theorem same_normalize_self_iff {path : Path} :
    path.normalize.same path = true ↔ ∀ step ∈ path.components, step.IsPlain := by
  rw [same, beq_iff_eq]
  constructor
  · intro hsame
    rw [← hsame]
    exact isPlain_of_mem_normalize path
  · intro hplain
    rw [components_normalize_eq, kept, foldl_normalStep_of_isPlain hplain, List.append_nil,
      List.reverse_reverse]

/-! ## Joined paths -/

/-- A relative path has the components of a text behind a slash, perhaps after a
leading `.`. -/
theorem components_of_relative {path : Path} (h : path.isAbsolute = false) :
    path.components = innerComponents path.text.toList ∨
      path.components = .here :: innerComponents path.text.toList := by
  rw [components_eq]
  unfold view
  split
  · rename_i rest htext
    simp [isAbsolute, htext] at h
  · rename_i htext
    rw [htext]
    exact .inr rfl
  · rename_i rest htext
    have hdot : innerComponents ('.' :: '/' :: rest) = innerComponents rest :=
      innerComponents_append ['.'] rest
    have hslash : innerComponents ('/' :: rest) = innerComponents rest :=
      innerComponents_append [] rest
    rw [htext, hdot, ← hslash]
    exact .inr rfl
  · exact .inl rfl

theorem foldl_normalStep_of_relative {path : Path} (h : path.isAbsolute = false)
    (taken : List Component) :
    path.components.foldl normalStep taken =
      (innerComponents path.text.toList).foldl normalStep taken := by
  rcases components_of_relative h with hsteps | hsteps
  · rw [hsteps]
  · rw [hsteps, List.foldl_cons, normalStep]

/-- The walk along a joined path goes on where the base has come to. -/
theorem kept_join {base tail : Path} (htail : tail.isAbsolute = false) :
    (base.join tail).kept = tail.components.foldl normalStep base.kept := by
  rw [foldl_normalStep_of_relative htail]
  by_cases hbase : base.text = ""
  · -- nothing stands before the tail, so that it is walked from its own start
    have hjoin : base.join tail = tail := by
      simp [join, htail, hbase]
    have hnone : base.kept = [] := by
      rw [show base = ⟨""⟩ from congrArg Path.mk hbase]
      decide
    rw [hjoin, hnone, kept, foldl_normalStep_of_relative htail]
  · rw [kept, components_join hbase htail, List.foldl_append]
    rfl

theorem join_of_isAbsolute {tail : Path} (h : tail.isAbsolute = true) (base : Path) :
    base.join tail = tail := by
  rw [join, if_pos h]

/-- A base can be normalized before a path is put behind it. -/
theorem normalize_join (base tail : Path) :
    (base.join tail).normalize = (base.normalize.join tail).normalize := by
  cases htail : tail.isAbsolute with
  | true => rw [join_of_isAbsolute htail, join_of_isAbsolute htail]
  | false =>
    apply normalize_eq_of_kept
    rw [kept_join htail, kept_join htail, kept_normalize]

/-- A `..` at the end takes back the last step. -/
theorem components_normalize_join_up (base : Path) :
    (base.join ⟨".."⟩).normalize.components = base.normalize.components.dropLast := by
  have hup : components ⟨".."⟩ = [.up] := by decide
  rw [components_normalize_eq, components_normalize_eq, kept_join (by decide), hup,
    List.dropLast_reverse]
  rfl

/-- Normalizing is a normal form: no `.` and no `..` is left, a path without them
stays as it is, and a second time changes nothing.  It can be done before a path is
joined with another one, whether that one is absolute, empty or starts with `.` or
`..`, and a `..` takes back the last step.  So the files of a run get the findings
that they would get if the workspace had been normalized first. -/
theorem normalize_congruent (path tail : Path) :
    .here ∉ path.normalize.components ∧ .up ∉ path.normalize.components ∧
    (path.normalize.same path = true ↔ .here ∉ path.components ∧ .up ∉ path.components) ∧
    path.normalize.normalize = path.normalize ∧
    (path.join tail).normalize = (path.normalize.join tail).normalize ∧
    (path.join ⟨".."⟩).normalize.components = path.normalize.components.dropLast ∧
    ∀ (report : Report) (directory : Path) (arguments : CommandLine.Arguments),
      let (workspace, files) := CommandLine.targets directory arguments
      files.map (fun file => report.findingsFor file.2) =
        arguments.files.map fun file => report.findingsFor (workspace.normalize.join file) := by
  have hplain : ∀ steps : List Component,
      (∀ step ∈ steps, step.IsPlain) ↔ .here ∉ steps ∧ .up ∉ steps := by
    intro steps
    constructor
    · intro h
      exact ⟨fun hmem => (h _ hmem).1 rfl, fun hmem => (h _ hmem).2 rfl⟩
    · rintro ⟨hhere, hup⟩ step hstep
      exact ⟨fun heq => hhere (heq ▸ hstep), fun heq => hup (heq ▸ hstep)⟩
  obtain ⟨hhere, hup⟩ := (hplain _).mp (isPlain_of_mem_normalize path)
  refine ⟨hhere, hup, ?_, normalize_eq_of_kept (kept_normalize path), normalize_join path tail,
    components_normalize_join_up path, ?_⟩
  · rw [same_normalize_self_iff, hplain]
  · intro report directory arguments
    simp only [CommandLine.targets, List.map_map, Report.findingsFor, Function.comp_def,
      ← normalize_join]

-- a base that climbs over the root leaves nothing, and what is joined to it stands alone
example : normalize ⟨"/w/../.."⟩ = ⟨""⟩ ∧
    (join ⟨"/w/../.."⟩ ⟨"./../a.ts"⟩).normalize = ⟨"a.ts"⟩ := by
  decide +kernel

end LintLayer.Path
