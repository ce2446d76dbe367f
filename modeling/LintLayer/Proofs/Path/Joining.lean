import LintLayer.Proofs.Path.Directory
import Mathlib.Data.List.Induction

/-!
# The components of a joined path

A path that is put behind another one adds its components, all but a leading
`.`, and an absolute path stands for itself (`components_join`).  So steps that
are joined one after the other are read back as they were
(`components_ofComponents`), if each of them is a name and only the first one is
perhaps the root.
-/

namespace LintLayer.Text

variable {separator : Char}

theorem splitOn_ne_nil (text : List Char) : splitOn separator text ≠ [] := by
  cases text with
  | nil => simp [splitOn]
  | cons c text =>
    rw [splitOn]
    split
    · simp
    · split <;> simp

/-- A separator between two texts splits them apart. -/
theorem splitOn_append_separator (text rest : List Char) :
    splitOn separator (text ++ separator :: rest) =
      splitOn separator text ++ splitOn separator rest := by
  induction text with
  | nil => exact splitOn_separator_cons rest
  | cons c text ih =>
    by_cases hc : c = separator
    · subst hc
      rw [List.cons_append, splitOn_separator_cons, splitOn_separator_cons, ih,
        List.cons_append]
    · obtain ⟨piece, pieces, hpieces⟩ := List.exists_cons_of_ne_nil (splitOn_ne_nil text)
      have hlonger := ih
      rw [hpieces, List.cons_append] at hlonger
      rw [List.cons_append, splitOn, if_neg hc, hlonger, splitOn, if_neg hc, hpieces]
      rfl

end LintLayer.Text

namespace LintLayer.Path

/-! ## A text behind a slash -/

/-- The components of a text that follows a slash. -/
def innerComponents (text : List Char) : List Component :=
  (Text.splitOn '/' text).filterMap segmentComponent?

theorem innerComponents_nil : innerComponents [] = [] := rfl

theorem innerComponents_append (text rest : List Char) :
    innerComponents (text ++ '/' :: rest) = innerComponents text ++ innerComponents rest := by
  rw [innerComponents, Text.splitOn_append_separator, List.filterMap_append]
  rfl

theorem components_root_cons (rest : List Char) :
    components ⟨String.ofList ('/' :: rest)⟩ = .root :: innerComponents rest := by
  simp [components, view, Head.component?, innerComponents]

theorem components_here_cons (rest : List Char) :
    components ⟨String.ofList ('.' :: '/' :: rest)⟩ = .here :: innerComponents rest := by
  have hblank : segmentComponent? [] = none := rfl
  simp [components, view, Head.component?, innerComponents, Text.splitOn_separator_cons, hblank]

/-- What follows a slash adds its components.  A path that starts with the slash
has the root before them. -/
theorem components_append (text rest : List Char) :
    components ⟨String.ofList (text ++ '/' :: rest)⟩ =
      (if text = [] then [.root] else components ⟨String.ofList text⟩) ++
        innerComponents rest := by
  have hpieces : Text.splitOn '/' text ≠ [] := Text.splitOn_ne_nil text
  obtain ⟨first, pieces, hsplit⟩ := List.exists_cons_of_ne_nil hpieces
  cases hblank : isBlank first with
  | true =>
    -- the text is a head, or it starts with one and a slash
    have hcases : first = [] ∨ first = ['.'] := by simpa [isBlank] using hblank
    rcases Text.text_of_splitOn hsplit with ⟨rfl, -⟩ | ⟨more, rfl⟩
    · rcases hcases with rfl | rfl
      · rw [List.nil_append, components_root_cons, if_pos rfl, List.singleton_append]
      · exact components_here_cons rest
    · rcases hcases with rfl | rfl
      · simp only [List.nil_append, List.cons_append, components_root_cons,
          innerComponents_append, reduceCtorEq, if_false]
      · simp only [List.nil_append, List.cons_append, components_here_cons,
          innerComponents_append, reduceCtorEq, if_false]
  | false =>
    have hne : text ≠ [] := by
      rintro rfl
      cases hsplit
      simp [isBlank] at hblank
    have hlonger : Text.splitOn '/' (text ++ '/' :: rest) =
        first :: (pieces ++ Text.splitOn '/' rest) := by
      rw [Text.splitOn_append_separator, hsplit, List.cons_append]
    rw [if_neg hne, components, components, view_of_first hsplit hblank,
      view_of_first hlonger hblank, ← List.cons_append]
    simp only [List.filterMap_append, List.append_assoc]
    rfl

/-! ## Joining -/

/-- A path behind another one adds its components, without a leading `.`. -/
theorem components_join {base tail : Path} (hbase : base.text ≠ "")
    (htail : tail.isAbsolute = false) :
    (base.join tail).components = base.components ++ innerComponents tail.text.toList := by
  obtain ⟨base⟩ := base
  obtain ⟨tail⟩ := tail
  have hne : base.toList ≠ [] := by simpa using hbase
  obtain ⟨text, last, htext⟩ := List.eq_nil_or_concat base.toList |>.resolve_left hne
  rw [List.concat_eq_append] at htext
  have hlast : base.toList.getLast? = some last := by rw [htext, List.getLast?_concat]
  rw [join, htail]
  simp only [hlast, Bool.false_eq_true, if_false]
  split
  · cases ‹some last = none›
  · obtain rfl : last = '/' := Option.some.inj ‹_›
    have hjoined : base ++ tail = String.ofList (text ++ '/' :: tail.toList) := by
      rw [← String.toList_inj]
      simp [htext]
    have hbase : components ⟨base⟩ = components ⟨String.ofList (text ++ '/' :: [])⟩ := by
      rw [← htext, String.ofList_toList]
    rw [hjoined, hbase, components_append, components_append, innerComponents_nil,
      List.append_nil]
  · have hjoined : base ++ "/" ++ tail = String.ofList (base.toList ++ '/' :: tail.toList) := by
      rw [← String.toList_inj]
      simp
    rw [hjoined, components_append, if_neg hne, String.ofList_toList]

/-- A text that is read as one name. -/
structure PlainName (name : String) : Prop where
  component : segmentComponent? name.toList = some (.name name)
  noSlash : '/' ∉ name.toList

theorem PlainName.splitOn {name : String} (h : PlainName name) :
    Text.splitOn '/' name.toList = [name.toList] := by
  simpa [Text.splitOn] using Text.splitOn_piece_append h.noSlash [] rfl

theorem PlainName.innerComponents {name : String} (h : PlainName name) :
    innerComponents name.toList = [.name name] := by
  rw [Path.innerComponents, h.splitOn, List.filterMap_cons, h.component]
  rfl

/-- A name behind a path is one more component. -/
theorem components_join_name {name : String} (h : PlainName name) (base : Path) :
    (base.join ⟨name⟩).components = base.components ++ [.name name] := by
  have htail : isAbsolute ⟨name⟩ = false := by
    rw [isAbsolute, beq_eq_false_iff_ne]
    intro hhead
    exact h.noSlash (List.mem_of_mem_head? hhead)
  by_cases hbase : base.text = ""
  · have hsplit : Text.splitOn '/' name.toList = [name.toList] := h.splitOn
    have hblank : isBlank name.toList = false := by
      rw [← Bool.not_eq_true, ← segmentComponent?_eq_none_iff, h.component]
      simp
    have hview := view_of_first hsplit hblank
    rw [String.ofList_toList] at hview
    have hjoin : base.join ⟨name⟩ = ⟨name⟩ := by
      simp [join, htail, hbase]
    have hnone : base.components = [] := by
      rw [show base = ⟨""⟩ from congrArg Path.mk hbase]
      decide
    rw [hjoin, hnone, components, hview]
    simp [Head.component?, h.component]
  · rw [components_join hbase htail, h.innerComponents]

/-! ## Steps that are read back -/

theorem ofComponents_concat (steps : List Component) (step : Component) :
    ofComponents (steps ++ [step]) = (ofComponents steps).join ⟨step.text⟩ :=
  List.foldl_append

/-- Names from the root, or from here, are read back from their path. -/
theorem components_ofComponents {anchor : List Component} (hanchor : anchor = [] ∨ anchor = [.root])
    {names : List String} (hnames : ∀ name ∈ names, PlainName name) :
    (ofComponents (anchor ++ names.map .name)).components = anchor ++ names.map .name := by
  induction names using List.reverseRecOn with
  | nil => rcases hanchor with rfl | rfl <;> decide
  | append_singleton names name ih =>
    have hbefore : ∀ other ∈ names, PlainName other := by
      intro other hother
      exact hnames other (List.mem_append_left _ hother)
    rw [List.map_append, List.map_singleton, ← List.append_assoc, ofComponents_concat,
      Component.text, components_join_name (hnames name (by simp)), ih hbefore]

theorem components_eq (path : Path) :
    path.components =
      path.view.1.component?.toList ++ path.view.2.filterMap segmentComponent? :=
  rfl

/-- A segment is `..` or a name. -/
theorem segmentComponent?_eq_some {segment : List Char} {step : Component}
    (h : segmentComponent? segment = some step) :
    step = .up ∨ step = .name (String.ofList segment) := by
  unfold segmentComponent? at h
  split at h
  · cases h
  · split at h <;> cases h <;> simp

/-- The names in a path are plain. -/
theorem plainName_of_mem_components {path : Path} {name : String}
    (h : .name name ∈ path.components) : PlainName name := by
  have hfits := fits_view path
  rw [components_eq] at h
  generalize path.view.1 = head at *
  rcases List.mem_append.mp h with hhead | hsegment
  · cases head <;> simp [Head.component?] at hhead
  · obtain ⟨segment, hmem, hcomponent⟩ := List.mem_filterMap.mp hsegment
    obtain rfl : name = String.ofList segment := by
      simpa using segmentComponent?_eq_some hcomponent
    refine ⟨?_, ?_⟩
    · rw [String.toList_ofList, hcomponent]
    · rw [String.toList_ofList]
      exact hfits.noSlash segment hmem

/-- No segment is the root. -/
theorem root_notMem_segments (segments : List (List Char)) :
    .root ∉ segments.filterMap segmentComponent? := by
  intro h
  obtain ⟨segment, -, hcomponent⟩ := List.mem_filterMap.mp h
  simpa using segmentComponent?_eq_some hcomponent

/-- Only the first component can be the root. -/
theorem root_notMem_tail_components (path : Path) : .root ∉ path.components.tail := by
  have hinner := root_notMem_segments path.view.2
  rw [components_eq]
  generalize path.view.1 = head at *
  cases head with
  | root => exact hinner
  | here => exact hinner
  | none => exact fun h => hinner (List.mem_of_mem_tail h)

end LintLayer.Path
