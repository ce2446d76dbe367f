import LintLayer.Proofs.Path.Joining
import LintLayer.Report.Basic

/-!
# Where a path leads

A path leads from a working directory to a place, by its text alone: `..` goes
to the directory above, and stays at the root.  To normalize a path keeps the
place it leads to, as long as each `..` has a name in the path to take back.  A
path that climbs higher than it has gone down loses its root, or the `..` that
lead out of the working directory.

* `foldl_normalStep` says what is left of a path: the names, and the root of a
  path that does not climb.
* `exists_ups` says where a relative path leads from every directory.
* `leadsTo_normalize` puts the two together, and `findingsFor_by_place` says which
  findings of a report a file gets.
-/

namespace LintLayer.Path

/-! ## Places -/

/-- The directory that one step leads to.  A directory is the list of the names
below the root, the innermost one first. -/
def enter (directory : List String) : Component → List String
  | .root => []
  | .here => directory
  | .up => directory.tail
  | .name text => text :: directory

/-- Where a path leads from a working directory. -/
def leadsTo (path : Path) (directory : List String) : List String :=
  path.components.foldl enter directory

/-- Two paths that lead to one place, wherever they start. -/
def SamePlace (p q : Path) : Prop :=
  ∀ directory, p.leadsTo directory = q.leadsTo directory

/-- One of the steps is a `..` for which the steps before it leave no name to take
back. -/
def ClimbsIn (steps : List Component) : Prop :=
  ∃ i < steps.length, steps[i]? = some .up ∧ (steps.take i).foldl enter [] = []

instance (steps : List Component) : Decidable (ClimbsIn steps) :=
  inferInstanceAs (Decidable (∃ i < steps.length, _ ∧ _))

/-- The path climbs higher than it has gone down. -/
def Climbs (path : Path) : Prop :=
  ClimbsIn path.components

instance (path : Path) : Decidable path.Climbs :=
  inferInstanceAs (Decidable (ClimbsIn path.components))

theorem climbsIn_concat {steps : List Component} {step : Component} :
    ClimbsIn (steps ++ [step]) ↔
      ClimbsIn steps ∨ step = .up ∧ steps.foldl enter [] = [] := by
  constructor
  · rintro ⟨i, hlt, hup, hnone⟩
    rw [List.length_append, List.length_singleton] at hlt
    by_cases hlast : i = steps.length
    · subst hlast
      rw [List.getElem?_concat_length] at hup
      rw [List.take_left] at hnone
      exact .inr ⟨Option.some.inj hup, hnone⟩
    · have hearlier : i < steps.length := by omega
      rw [List.getElem?_append_left hearlier] at hup
      rw [List.take_append_of_le_length (Nat.le_of_lt hearlier)] at hnone
      exact .inl ⟨i, hearlier, hup, hnone⟩
  · rintro (⟨i, hlt, hup, hnone⟩ | ⟨rfl, hnone⟩)
    · refine ⟨i, ?_, ?_, ?_⟩
      · rw [List.length_append]
        omega
      · rw [List.getElem?_append_left hlt, hup]
      · rw [List.take_append_of_le_length (Nat.le_of_lt hlt), hnone]
    · exact ⟨steps.length, by simp, List.getElem?_concat_length, by rw [List.take_left, hnone]⟩

theorem not_climbsIn_nil : ¬ ClimbsIn [] := by
  decide

theorem mem_tail_concat {steps : List Component} {step other : Component}
    (h : other ∈ steps.tail) : other ∈ (steps ++ [step]).tail := by
  cases steps with
  | nil => cases h
  | cons first steps => exact List.mem_append_left [step] h

/-! ## What is left of a path -/

/-- What is left of the root of a path: nothing, once the path has climbed. -/
def anchorOf (steps : List Component) : List Component :=
  if .root ∈ steps ∧ ¬ ClimbsIn steps then [.root] else []

theorem anchorOf_of_climbsIn {steps : List Component} (h : ClimbsIn steps) :
    anchorOf steps = [] :=
  if_neg fun hanchor => hanchor.2 h

/-- A step that is neither the root nor a climb keeps the anchor. -/
theorem anchorOf_concat {steps : List Component} {step : Component} (hroot : step ≠ .root)
    (hclimbs : step = .up → steps.foldl enter [] ≠ []) :
    anchorOf (steps ++ [step]) = anchorOf steps := by
  have hsame : ClimbsIn (steps ++ [step]) ↔ ClimbsIn steps := by
    rw [climbsIn_concat, or_iff_left]
    rintro ⟨hup, hnone⟩
    exact hclimbs hup hnone
  simp only [anchorOf, hsame, List.mem_append, List.mem_singleton, Ne.symm hroot, or_false]

/-- The steps that are left: the names, and the anchor before them. -/
theorem foldl_normalStep {steps : List Component} (hroot : .root ∉ steps.tail) :
    steps.foldl normalStep [] = (steps.foldl enter []).map .name ++ anchorOf steps := by
  induction steps using List.reverseRecOn with
  | nil => rfl
  | append_singleton steps step ih =>
    have hbefore := ih fun hmem => hroot (mem_tail_concat hmem)
    rw [List.foldl_append, List.foldl_append]
    cases step with
    | root =>
      -- the root is the first step
      cases steps with
      | nil => decide
      | cons first steps => simp at hroot
    | here =>
      rw [anchorOf_concat (by simp) (by simp)]
      exact hbefore
    | up =>
      rw [hbefore]
      cases hnames : steps.foldl enter [] with
      | nil =>
        rw [anchorOf_of_climbsIn (climbsIn_concat.mpr (.inr ⟨rfl, hnames⟩))]
        -- the step takes back the root, if it was there
        unfold anchorOf
        split <;> rfl
      | cons name names =>
        rw [anchorOf_concat (by simp) (by simp [hnames])]
        rfl
    | name text =>
      rw [anchorOf_concat (by simp) (by simp)]
      exact congrArg (Component.name text :: ·) hbefore

/-! ## Where a path leads -/

/-- An absolute path leads to one place from everywhere. -/
theorem foldl_enter_of_root_mem {steps : List Component} (hmem : .root ∈ steps)
    (hroot : .root ∉ steps.tail) (directory : List String) :
    steps.foldl enter directory = steps.foldl enter [] := by
  cases steps with
  | nil => cases hmem
  | cons first steps =>
    obtain rfl : .root = first := (List.mem_cons.mp hmem).resolve_right hroot
    rfl

/-- A relative path goes up some directories and then down its names.  It goes up
if it climbs. -/
theorem exists_ups {steps : List Component} (hroot : .root ∉ steps) :
    ∃ ups, (0 < ups ↔ ClimbsIn steps) ∧
      ∀ directory, steps.foldl enter directory = steps.foldl enter [] ++ directory.drop ups := by
  induction steps using List.reverseRecOn with
  | nil => exact ⟨0, by simp [not_climbsIn_nil], fun directory => rfl⟩
  | append_singleton steps step ih =>
    obtain ⟨ups, hups, hleads⟩ := ih fun hmem => hroot (List.mem_append_left _ hmem)
    cases step with
    | root => simp at hroot
    | here =>
      refine ⟨ups, by simp [hups, climbsIn_concat], fun directory => ?_⟩
      simpa [enter] using hleads directory
    | up =>
      cases hnames : steps.foldl enter [] with
      | nil =>
        refine ⟨ups + 1, by simp [climbsIn_concat, hnames], fun directory => ?_⟩
        rw [List.foldl_append, List.foldl_append, hleads, hnames]
        simp [enter]
      | cons name names =>
        refine ⟨ups, by simp [hups, climbsIn_concat, hnames], fun directory => ?_⟩
        rw [List.foldl_append, List.foldl_append, hleads, hnames]
        simp [enter]
    | name text =>
      refine ⟨ups, by simp [hups, climbsIn_concat], fun directory => ?_⟩
      simpa [enter] using hleads directory

theorem foldl_enter_names (names : List String) (directory : List String) :
    (names.map Component.name).foldl enter directory = names.reverse ++ directory := by
  induction names generalizing directory with
  | nil => rfl
  | cons name names ih => simp [enter, ih]

/-- The names that are left are names of the path. -/
theorem name_mem_of_mem_foldl_enter {steps : List Component} {text : String}
    (h : text ∈ steps.foldl enter []) : .name text ∈ steps := by
  induction steps using List.reverseRecOn with
  | nil => cases h
  | append_singleton steps step ih =>
    rw [List.foldl_append] at h
    cases step with
    | root => cases h
    | here => exact List.mem_append_left _ (ih h)
    | up => exact List.mem_append_left _ (ih (List.mem_of_mem_tail h))
    | name other =>
      rcases List.mem_cons.mp h with rfl | hbefore
      · simp
      · exact List.mem_append_left _ (ih hbefore)

theorem root_mem_components_iff {path : Path} :
    .root ∈ path.components ↔ path.isAbsolute = true := by
  have hhead : .root ∈ path.view.1.component?.toList ↔ path.isAbsolute = true := by
    unfold view isAbsolute
    split
    · rename_i rest htext
      simp [htext, Head.component?]
    · rename_i htext
      simp [htext, Head.component?]
    · rename_i rest htext
      simp [htext, Head.component?]
    · rename_i hroot _ _
      simp only [Head.component?, Option.toList_none, List.not_mem_nil, false_iff, beq_iff_eq]
      intro hfirst
      obtain ⟨rest, htext⟩ := List.head?_eq_some_iff.mp hfirst
      exact hroot rest htext
  rw [components_eq, List.mem_append, hhead, or_iff_left (root_notMem_segments _)]

theorem anchorOf_components (path : Path) :
    anchorOf path.components =
      if path.isAbsolute = true ∧ ¬ path.Climbs then [.root] else [] :=
  if_congr (and_congr_left fun _ => root_mem_components_iff) rfl rfl

/-! ## Normal paths -/

/-- The steps of a normalized path. -/
theorem components_normalize (path : Path) :
    path.normalize.components =
      (if path.isAbsolute = true ∧ ¬ path.Climbs then [.root] else []) ++
        (path.leadsTo []).reverse.map .name := by
  have hplain : ∀ name ∈ (path.leadsTo []).reverse, PlainName name := by
    intro name hname
    exact plainName_of_mem_components
      (name_mem_of_mem_foldl_enter (List.mem_reverse.mp hname))
  have htaken := foldl_normalStep (root_notMem_tail_components path)
  rw [anchorOf_components] at htaken
  rw [normalize, htaken, List.reverse_append, ← List.map_reverse]
  split
  · exact components_ofComponents (.inr rfl) hplain
  · exact components_ofComponents (.inl rfl) hplain

/-- A normalized path leads down the names that are left, from the root or from
the working directory. -/
theorem leadsTo_normalize (path : Path) (directory : List String) :
    path.normalize.leadsTo directory =
      path.leadsTo [] ++ if path.isAbsolute = true ∧ ¬ path.Climbs then [] else directory := by
  rw [leadsTo, components_normalize, List.foldl_append, foldl_enter_names, List.reverse_reverse]
  split <;> rfl

/-- A path keeps its place exactly if it does not climb. -/
theorem samePlace_normalize_iff {path : Path} :
    SamePlace path.normalize path ↔ ¬ path.Climbs := by
  by_cases habsolute : path.isAbsolute = true
  · have hleads : ∀ directory, path.leadsTo directory = path.leadsTo [] :=
      foldl_enter_of_root_mem (root_mem_components_iff.mpr habsolute)
        (root_notMem_tail_components path)
    constructor
    · intro hsame hclimbs
      have hplace := hsame [""]
      rw [leadsTo_normalize, if_neg fun h => h.2 hclimbs, hleads [""]] at hplace
      exact List.cons_ne_nil _ _ (List.append_right_eq_self.mp hplace)
    · intro hclimbs directory
      rw [leadsTo_normalize, if_pos ⟨habsolute, hclimbs⟩, List.append_nil, hleads directory]
  · obtain ⟨ups, hups, hleads⟩ : ∃ ups, (0 < ups ↔ path.Climbs) ∧
        ∀ directory, path.leadsTo directory = path.leadsTo [] ++ directory.drop ups :=
      exists_ups fun hmem => habsolute (root_mem_components_iff.mp hmem)
    constructor
    · intro hsame hclimbs
      have hplace := hsame [""]
      have hdrop : [""].drop ups = [] := List.drop_eq_nil_of_le (hups.mpr hclimbs)
      rw [leadsTo_normalize, if_neg fun h => habsolute h.1, hleads [""], hdrop,
        List.append_nil] at hplace
      exact List.cons_ne_nil _ _ (List.append_right_eq_self.mp hplace)
    · intro hclimbs directory
      have hzero : ups = 0 := by
        have hnot : ¬ 0 < ups := fun h => hclimbs (hups.mp h)
        omega
      rw [leadsTo_normalize, if_neg fun h => habsolute h.1, hleads directory, hzero,
        List.drop_zero]

/-- Normalized paths with one place have the same components. -/
theorem same_normalize_iff {p q : Path} :
    p.normalize.same q.normalize = true ↔ SamePlace p.normalize q.normalize := by
  rw [same, beq_iff_eq]
  constructor
  · intro hsame directory
    rw [leadsTo, hsame, leadsTo]
  · intro hplace
    have hnames : p.leadsTo [] = q.leadsTo [] := by
      simpa [leadsTo_normalize] using hplace []
    -- only a path without its root depends on the working directory
    have hanchor : (p.isAbsolute = true ∧ ¬ p.Climbs) ↔ (q.isAbsolute = true ∧ ¬ q.Climbs) := by
      have hfrom := hplace [""]
      rw [leadsTo_normalize, leadsTo_normalize, hnames, List.append_cancel_left_eq] at hfrom
      split at hfrom
      · rename_i hp
        split at hfrom
        · exact iff_of_true hp ‹_›
        · cases hfrom
      · rename_i hp
        split at hfrom
        · cases hfrom
        · exact iff_of_false hp ‹_›
    rw [components_normalize, components_normalize, hnames, if_congr hanchor rfl rfl]

theorem SamePlace.symm {p q : Path} (h : SamePlace p q) : SamePlace q p :=
  fun directory => (h directory).symm

theorem SamePlace.trans {p q r : Path} (h : SamePlace p q) (h' : SamePlace q r) : SamePlace p r :=
  fun directory => (h directory).trans (h' directory)

/-- Only paths that do not climb are normalized to the place of an absolute path
that does not climb: all others lead to a different place from another working
directory. -/
theorem samePlace_normalize_of_absolute {p q : Path} (habsolute : q.isAbsolute = true)
    (hclimbs : ¬ q.Climbs) :
    SamePlace p.normalize q.normalize ↔ ¬ p.Climbs ∧ SamePlace p q := by
  have hq := samePlace_normalize_iff.mpr hclimbs
  constructor
  · intro hplace
    have hp : ¬ p.Climbs := by
      intro hp
      have hhere := hplace []
      have hthere := hplace [""]
      rw [leadsTo_normalize, leadsTo_normalize, if_neg fun h => h.2 hp,
        if_pos ⟨habsolute, hclimbs⟩] at hhere hthere
      rw [← hhere] at hthere
      exact List.cons_ne_nil _ _ (List.append_cancel_left hthere)
    exact ⟨hp, (samePlace_normalize_iff.mpr hp).symm.trans (hplace.trans hq)⟩
  · rintro ⟨hp, hplace⟩
    exact (samePlace_normalize_iff.mpr hp).trans (hplace.trans hq.symm)

end LintLayer.Path

namespace LintLayer.Report

open LintLayer.Path

/-- A file gets the findings of the results whose paths lead to its place, once all
paths are normalized.  This keeps the place of every path that does not climb, and
of no other: a path that climbs is taken for the path of the names that are left,
from the working directory.  So an absolute file that does not climb gets findings
of its own place only, and all of them that are reported under paths that do not
climb. -/
theorem findingsFor_by_place (report : Report) (file : Path) :
    (∀ path : Path, SamePlace path.normalize path ↔ ¬ path.Climbs) ∧
    (∀ path : Path, path.Climbs → ∀ directory,
      path.normalize.leadsTo directory = path.leadsTo [] ++ directory) ∧
    (∀ finding, finding ∈ report.findingsFor file ↔
      ∃ result ∈ report.results, finding ∈ result.findings ∧
        SamePlace result.file.normalize file.normalize) ∧
    (file.isAbsolute = true → ¬ file.Climbs →
      ∀ finding, finding ∈ report.findingsFor file ↔
        ∃ result ∈ report.results, finding ∈ result.findings ∧
          ¬ result.file.Climbs ∧ SamePlace result.file file) := by
  have hmem : ∀ finding, finding ∈ report.findingsFor file ↔
      ∃ result ∈ report.results, finding ∈ result.findings ∧
        SamePlace result.file.normalize file.normalize := by
    intro finding
    simp only [findingsFor, List.mem_flatMap, List.mem_filter, same_normalize_iff]
    constructor
    · rintro ⟨result, ⟨hresult, hplace⟩, hfinding⟩
      exact ⟨result, hresult, hfinding, hplace⟩
    · rintro ⟨result, hresult, hfinding, hplace⟩
      exact ⟨result, ⟨hresult, hplace⟩, hfinding⟩
  refine ⟨fun _ => samePlace_normalize_iff, fun path hclimbs directory => ?_, hmem,
    fun habsolute hclimbs finding => ?_⟩
  · rw [leadsTo_normalize, if_neg fun h => h.2 hclimbs]
  · rw [hmem]
    refine exists_congr fun result => and_congr_right fun _ => and_congr_right fun _ => ?_
    exact samePlace_normalize_of_absolute habsolute hclimbs

/-- A detour over a directory is no climb, and its finding is the file's.  The path
that climbs over the root is taken for a file in the working directory. -/
theorem findingsFor_by_place_detour :
    let file : Path := ⟨"/w/./a.ts"⟩
    let detour : Path := ⟨"/w/src/../a.ts"⟩
    let above : Path := ⟨"/../a.ts"⟩
    let near : Finding := { message := "near" }
    let report := ofResults [{ file := above, findings := [{ message := "far" }] },
      { file := detour, findings := [near] }]
    file.isAbsolute = true ∧ ¬ file.Climbs ∧ near ∈ report.findingsFor file ∧
      above.Climbs ∧ above.leadsTo ["w"] = ["a.ts"] ∧
      above.normalize.leadsTo ["w"] = ["a.ts", "w"] := by
  intro file detour above near report
  have hfile : file.isAbsolute = true ∧ ¬ file.Climbs := by decide +kernel
  have habove : above.Climbs ∧ above.leadsTo ["w"] = ["a.ts"] := by decide +kernel
  have hsteps : file.components = [.root, .name "w", .name "a.ts"] ∧
      detour.components = [.root, .name "w", .name "src", .up, .name "a.ts"] := by
    decide +kernel
  have hplace : SamePlace detour file := by
    intro directory
    rw [leadsTo, leadsTo, hsteps.1, hsteps.2]
    rfl
  obtain ⟨-, hclimbing, -, habsolute⟩ := findingsFor_by_place report file
  refine ⟨hfile.1, hfile.2, ?_, habove.1, habove.2, ?_⟩
  · refine (habsolute hfile.1 hfile.2 near).mpr ⟨⟨detour, [near], 0, 0⟩, ?_, ?_, ?_, hplace⟩
    · exact List.mem_cons_of_mem _ List.mem_cons_self
    · exact List.mem_cons_self
    · show ¬ detour.Climbs
      decide +kernel
  · rw [hclimbing above habove.1]
    decide +kernel

/-- The finding of a file above the working directory goes to the file of the same
name inside it, and a path from the root is no longer one. -/
theorem finding_of_file_above :
    let above : Path := ⟨"../a.ts"⟩
    let file : Path := ⟨"a.ts"⟩
    let finding : Finding := { message := "m" }
    (ofResults [{ file := above, findings := [finding] }]).findingsFor file = [finding] ∧
      ¬ SamePlace above file ∧ isAbsolute ⟨"/../a.ts"⟩ = true ∧
      (normalize ⟨"/../a.ts"⟩).isAbsolute = false := by
  intro above file finding
  refine ⟨by decide +kernel, fun hsame => ?_, by decide +kernel, by decide +kernel⟩
  have hplace : above.leadsTo ["w"] = file.leadsTo ["w"] := hsame ["w"]
  revert hplace
  decide +kernel

end LintLayer.Report
