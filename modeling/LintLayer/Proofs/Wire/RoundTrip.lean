import LintLayer.Proofs.Json.Codec
import LintLayer.Report.Wire
import LintLayer.Wire

/-!
# The written forms are read back

Every value that is exchanged with the analyzer or with the host is read back
from its written form.  Offsets and counts are numbers of 64 bits, and the
host's commands are canonical JSON; the predicates `Fits` say so, and a reader
gives no other values.

A fix is the one value with two readings.  It is written as a list of objects,
and `ofOne?_toJson` says that such a list is never taken for one replacement.
-/

namespace LintLayer

open Json

/-! ## Replacements and fixes -/

/-- Both offsets are numbers of 64 bits. -/
def Replacement.Fits (replacement : Replacement) : Prop :=
  replacement.start < Nat.pow 2 64 ∧ replacement.stop < Nat.pow 2 64

theorem Replacement.ofBounds_self (replacement : Replacement) :
    ofBounds replacement.start replacement.stop replacement.text = replacement := by
  obtain ⟨start, stop, text, hle⟩ := replacement
  simp [ofBounds, Nat.max_eq_left hle]

theorem codes_replacement : Codes Replacement.ofJson? Replacement.toJson Replacement.Fits where
  back replacement h := by
    have hslots : record? ["range", "text"] replacement.toJson = _ :=
      record?_fieldMembers ["range", "text"]
        [some (.arr [ofNat replacement.start, ofNat replacement.stop]),
          some (.str replacement.text)] (by decide) rfl
    have hrange := (codes_pair codes_word codes_word).back (replacement.start, replacement.stop) h
    rw [Replacement.ofJson?, hslots]
    simp [hrange, replacement.ofBounds_self]
  fits json replacement h := by
    obtain ⟨slots, _, h⟩ := Option.bind_eq_some_iff.mp h
    split at h
    · obtain ⟨⟨start, stop⟩, hrange, h⟩ := Option.bind_eq_some_iff.mp h
      obtain ⟨text, _, h⟩ := Option.bind_eq_some_iff.mp h
      cases h
      obtain ⟨hstart, hstop⟩ := Slot.fits_of_required (codes_pair codes_word codes_word) hrange
      exact ⟨hstart, Nat.max_lt.mpr ⟨hstop, hstart⟩⟩
    · cases h

/-- All its replacements fit. -/
def Fix.Fits (fix : Fix) : Prop :=
  ∀ replacement ∈ fix.replacements, replacement.Fits

/-- A list of objects is not one replacement: its first item would have to be
the range. -/
theorem Fix.ofOne?_toJson (fix : Fix) : ofOne? fix.toJson = none := by
  obtain ⟨replacements⟩ := fix
  have hnone : Replacement.ofJson? (.arr (replacements.map Replacement.toJson)) = none := by
    match replacements with
    | [] => rfl
    | [_] => rfl
    | [_, _] => rfl
    | first :: second :: third :: more =>
      have hmany : record? ["range", "text"]
          (.arr ((first :: second :: third :: more).map Replacement.toJson)) = none := by
        rw [record?, if_pos (by simp)]
      rw [Replacement.ofJson?, hmany]
      rfl
  rw [ofOne?, toJson, hnone, Option.map_none]

theorem Fix.isReadable_toJson (fix : Fix) : fix.toJson.isReadable = true := by
  have hall : ∀ replacements : List Replacement,
      allReadable (replacements.map Replacement.toJson) = true := by
    intro replacements
    induction replacements with
    | nil => rfl
    | cons replacement replacements ih =>
      rw [List.map_cons, allReadable, ih]
      rfl
  exact hall fix.replacements

theorem codes_fix : Codes Fix.ofJson? Fix.toJson Fix.Fits where
  back fix h := by
    have hlist : asList? Replacement.ofJson? fix.toJson = some fix.replacements :=
      (codes_list codes_replacement).back fix.replacements h
    rw [Fix.ofJson?, if_pos fix.isReadable_toJson, fix.ofOne?_toJson, Option.none_or, Fix.ofMany?,
      hlist, Option.map_some]
  fits json fix h := by
    unfold Fix.ofJson? at h
    split at h
    · rcases Option.or_eq_some_iff.mp h with hone | ⟨_, hmany⟩
      · obtain ⟨replacement, hreplacement, rfl⟩ := Option.map_eq_some_iff.mp hone
        intro other hother
        rw [List.mem_singleton.mp hother]
        exact codes_replacement.fits _ _ hreplacement
      · obtain ⟨replacements, hreplacements, rfl⟩ := Option.map_eq_some_iff.mp hmany
        exact (codes_list codes_replacement).fits _ _ hreplacements
    · cases h

/-! ## Reports -/

/-- The fix of the finding fits. -/
def Finding.Fits (finding : Finding) : Prop :=
  ∀ fix ∈ finding.fix, fix.Fits

/-- No text is written as null. -/
theorem codes_text : Codes (asOption? asString?) (ofOption .str) fun _ => True where
  back text _ := (codes_option codes_string fun _ => by simp).back text fun _ _ => trivial
  fits _ _ _ := trivial

theorem codes_position : Codes (asOption? asUInt32?) Finding.positionJson fun _ => True where
  back position _ := (codes_option codes_uint32 fun _ => by simp [ofNat]).back position
    fun _ _ => trivial
  fits _ _ _ := trivial

/-- What is written for each field of a finding. -/
def Finding.fieldValues (finding : Finding) : List (Option Json) :=
  [some (ofOption .str finding.rule), some (.str finding.message),
    some (ofNat finding.severity.toNat), some (positionJson finding.line),
    some (positionJson finding.column), some (positionJson finding.endLine),
    some (positionJson finding.endColumn), finding.fix.map Fix.toJson]

theorem Finding.toJson_eq (finding : Finding) :
    finding.toJson = .obj (fieldMembers fieldNames finding.fieldValues) := by
  rw [toJson, fieldValues]
  cases finding.fix <;> rfl

theorem codes_finding : Codes Finding.ofJson? Finding.toJson Finding.Fits where
  back finding h := by
    have hslots := record?_fieldMembers Finding.fieldNames finding.fieldValues (by decide) rfl
    have hfix := Slot.orDefault_ofOption codes_fix (fun _ => by simp [Fix.toJson])
      finding.fix h
    rw [finding.toJson_eq, Finding.ofJson?, hslots]
    simp [Finding.fieldValues, codes_text.back _ trivial, codes_uint8.back _ trivial,
      codes_position.back _ trivial, hfix]
  fits json finding h := by
    obtain ⟨slots, _, h⟩ := Option.bind_eq_some_iff.mp h
    split at h
    · simp only [Option.bind_eq_bind, Option.bind_eq_some_iff] at h
      obtain ⟨_, _, _, _, _, _, _, _, _, _, _, _, _, _, fix, hfix, h⟩ := h
      cases h
      exact Slot.fits_of_orDefault (codes_option codes_fix fun _ => by simp [Fix.toJson])
        (by simp) hfix
    · cases h

/-- The findings fit, and the counts are numbers of 64 bits. -/
def FileResult.Fits (result : FileResult) : Prop :=
  (∀ finding ∈ result.findings, finding.Fits) ∧ result.errorCount < Nat.pow 2 64 ∧
    result.warningCount < Nat.pow 2 64

theorem codes_fileResult : Codes FileResult.ofJson? FileResult.toJson FileResult.Fits where
  back result h := by
    have hslots :
        record? ["filePath", "messages", "errorCount", "warningCount"] result.toJson = _ :=
      record?_fieldMembers ["filePath", "messages", "errorCount", "warningCount"]
        [some (.str result.file.text), some (.arr (result.findings.map Finding.toJson)),
          some (ofNat result.errorCount), some (ofNat result.warningCount)] (by decide) rfl
    have hfindings := (codes_list codes_finding).back result.findings h.1
    rw [FileResult.ofJson?, hslots]
    simp [hfindings, codes_word.back _ h.2.1, codes_word.back _ h.2.2]
  fits json result h := by
    obtain ⟨slots, _, h⟩ := Option.bind_eq_some_iff.mp h
    split at h
    · simp only [Option.bind_eq_bind, Option.bind_eq_some_iff] at h
      obtain ⟨_, _, findings, hfindings, errors, herrors, warnings, hwarnings, h⟩ := h
      cases h
      exact ⟨Slot.fits_of_orDefault (codes_list codes_finding) (by simp) hfindings,
        Slot.fits_of_orDefault codes_word (by decide) herrors,
        Slot.fits_of_orDefault codes_word (by decide) hwarnings⟩
    · cases h

/-- The results fit, and the counts are numbers of 64 bits. -/
def Report.Fits (report : Report) : Prop :=
  (∀ result ∈ report.results, result.Fits) ∧ report.errorCount < Nat.pow 2 64 ∧
    report.warningCount < Nat.pow 2 64

theorem codes_report : Codes Report.ofJson? Report.toJson Report.Fits where
  back report h := by
    have hslots : record? ["results", "errorCount", "warningCount"] report.toJson = _ :=
      record?_fieldMembers ["results", "errorCount", "warningCount"]
        [some (.arr (report.results.map FileResult.toJson)), some (ofNat report.errorCount),
          some (ofNat report.warningCount)] (by decide) rfl
    have hresults := (codes_list codes_fileResult).back report.results h.1
    rw [Report.ofJson?, hslots]
    simp [hresults, codes_word.back _ h.2.1, codes_word.back _ h.2.2]
  fits json report h := by
    obtain ⟨slots, _, h⟩ := Option.bind_eq_some_iff.mp h
    split at h
    · simp only [Option.bind_eq_bind, Option.bind_eq_some_iff] at h
      obtain ⟨results, hresults, errors, herrors, warnings, hwarnings, h⟩ := h
      cases h
      exact ⟨Slot.fits_of_required (codes_list codes_fileResult) hresults,
        Slot.fits_of_required codes_word herrors, Slot.fits_of_required codes_word hwarnings⟩
    · cases h

/-! ## What the host sees -/

/-- Both offsets are numbers of 64 bits. -/
def Span.Fits (span : Span) : Prop :=
  span.start < Nat.pow 2 64 ∧ span.length < Nat.pow 2 64

theorem codes_span : Codes Span.ofJson? Span.toJson Span.Fits where
  back span h := by
    have hslots : record? ["start", "length"] span.toJson = _ :=
      record?_fieldMembers ["start", "length"]
        [some (ofNat span.start), some (ofNat span.length)] (by decide) rfl
    rw [Span.ofJson?, hslots]
    simp [codes_word.back _ h.1, codes_word.back _ h.2]
  fits json span h := by
    obtain ⟨slots, _, h⟩ := Option.bind_eq_some_iff.mp h
    split at h
    · simp only [Option.bind_eq_bind, Option.bind_eq_some_iff] at h
      obtain ⟨start, hstart, length, hlength, h⟩ := h
      cases h
      exact ⟨Slot.fits_of_required codes_word hstart, Slot.fits_of_required codes_word hlength⟩
    · cases h

/-- The span of the edit fits. -/
def Edit.Fits (edit : Edit) : Prop :=
  edit.span.Fits

theorem codes_edit : Codes Edit.ofJson? Edit.toJson Edit.Fits where
  back edit h := by
    have hslots : record? ["span", "newText"] edit.toJson = _ :=
      record?_fieldMembers ["span", "newText"]
        [some edit.span.toJson, some (.str edit.newText)] (by decide) rfl
    rw [Edit.ofJson?, hslots]
    simp [codes_span.back _ h]
  fits json edit h := by
    obtain ⟨slots, _, h⟩ := Option.bind_eq_some_iff.mp h
    split at h
    · simp only [Option.bind_eq_bind, Option.bind_eq_some_iff] at h
      obtain ⟨span, hspan, _, _, h⟩ := h
      cases h
      exact Slot.fits_of_required codes_span hspan
    · cases h

/-- All edits of the file fit. -/
def FileEdits.Fits (change : FileEdits) : Prop :=
  ∀ edit ∈ change.edits, edit.Fits

theorem codes_fileEdits : Codes FileEdits.ofJson? FileEdits.toJson FileEdits.Fits where
  back change h := by
    have hslots : record? ["fileName", "textChanges"] change.toJson = _ :=
      record?_fieldMembers ["fileName", "textChanges"]
        [some (.str change.file.text), some (.arr (change.edits.map Edit.toJson))] (by decide) rfl
    have hedits := (codes_list codes_edit).back change.edits h
    rw [FileEdits.ofJson?, hslots]
    simp [hedits]
  fits json change h := by
    obtain ⟨slots, _, h⟩ := Option.bind_eq_some_iff.mp h
    split at h
    · simp only [Option.bind_eq_bind, Option.bind_eq_some_iff] at h
      obtain ⟨_, _, edits, hedits, h⟩ := h
      cases h
      exact Slot.fits_of_required (codes_list codes_edit) hedits
    · cases h

theorem codes_category : Codes Category.ofJson? Category.toJson fun _ => True where
  back category _ := by cases category <;> decide
  fits _ _ _ := trivial

/-- The span of the diagnostic fits. -/
def Diagnostic.Fits (diagnostic : Diagnostic) : Prop :=
  diagnostic.span.Fits

theorem codes_diagnostic : Codes Diagnostic.ofJson? Diagnostic.toJson Diagnostic.Fits where
  back diagnostic h := by
    have hslots : record? ["file", "span", "message", "category", "code", "source"]
        diagnostic.toJson = _ :=
      record?_fieldMembers ["file", "span", "message", "category", "code", "source"]
        [some (.str diagnostic.file.text), some diagnostic.span.toJson,
          some (.str diagnostic.message), some diagnostic.category.toJson,
          some (ofOption .str diagnostic.code), some (ofOption .str diagnostic.source)]
        (by decide) rfl
    rw [Diagnostic.ofJson?, hslots]
    simp [codes_span.back _ h, codes_category.back _ trivial, codes_text.back _ trivial]
  fits json diagnostic h := by
    obtain ⟨slots, _, h⟩ := Option.bind_eq_some_iff.mp h
    split at h
    · simp only [Option.bind_eq_bind, Option.bind_eq_some_iff] at h
      obtain ⟨_, _, span, hspan, _, _, _, _, _, _, _, _, h⟩ := h
      cases h
      exact Slot.fits_of_required codes_span hspan
    · cases h

/-- All changes of the action fit. -/
def CodeAction.Fits (action : CodeAction) : Prop :=
  ∀ change ∈ action.changes, change.Fits

/-- What is written for each field of an action. -/
def CodeAction.fieldValues (action : CodeAction) : List (Option Json) :=
  [some (.str action.name), some (.str action.description),
    some (.arr (action.changes.map FileEdits.toJson)), action.group.map .str,
    action.groupDescription.map .str]

theorem CodeAction.toJson_eq (action : CodeAction) :
    action.toJson = .obj (fieldMembers
      ["fixName", "description", "changes", "fixId", "fixAllDescription"] action.fieldValues) := by
  rw [toJson, fieldValues]
  cases action.group <;> cases action.groupDescription <;> rfl

theorem codes_codeAction : Codes CodeAction.ofJson? CodeAction.toJson CodeAction.Fits where
  back action h := by
    have hslots := record?_fieldMembers
      ["fixName", "description", "changes", "fixId", "fixAllDescription"] action.fieldValues
      (by decide) rfl
    have hchanges := (codes_list codes_fileEdits).back action.changes h
    have htext (text : Option String) := Slot.orDefault_ofOption codes_string (fun _ => by simp)
      text fun _ _ => trivial
    rw [action.toJson_eq, CodeAction.ofJson?, hslots]
    simp [CodeAction.fieldValues, hchanges, htext]
  fits json action h := by
    obtain ⟨slots, _, h⟩ := Option.bind_eq_some_iff.mp h
    split at h
    · simp only [Option.bind_eq_bind, Option.bind_eq_some_iff] at h
      obtain ⟨_, _, _, _, changes, hchanges, _, _, _, _, h⟩ := h
      cases h
      exact Slot.fits_of_required (codes_list codes_fileEdits) hchanges
    · cases h

/-- All changes fit, and the commands are canonical. -/
def CombinedActions.Fits (actions : CombinedActions) : Prop :=
  (∀ change ∈ actions.changes, change.Fits) ∧ ∀ command ∈ actions.commands, command.Canonical

theorem codes_combinedActions :
    Codes CombinedActions.ofJson? CombinedActions.toJson CombinedActions.Fits where
  back actions h := by
    have hslots : record? ["changes", "commands"] actions.toJson = _ :=
      record?_fieldMembers ["changes", "commands"]
        [some (.arr (actions.changes.map FileEdits.toJson)), some (.arr actions.commands)]
        (by decide) rfl
    have hchanges := (codes_list codes_fileEdits).back actions.changes h.1
    have hcommands := (codes_list codes_json).back actions.commands h.2
    rw [List.map_id] at hcommands
    rw [CombinedActions.ofJson?, hslots]
    simp [hchanges, hcommands]
  fits json actions h := by
    obtain ⟨slots, _, h⟩ := Option.bind_eq_some_iff.mp h
    split at h
    · simp only [Option.bind_eq_bind, Option.bind_eq_some_iff] at h
      obtain ⟨changes, hchanges, commands, hcommands, h⟩ := h
      cases h
      exact ⟨Slot.fits_of_required (codes_list codes_fileEdits) hchanges,
        Slot.fits_of_orDefault (codes_list codes_json) (by simp) hcommands⟩
    · cases h

/-! ## All forms -/

/-- Reading undoes writing, for every value that a reader can give and for
every type that is exchanged. -/
theorem reading_undoes_writing :
    Codes Replacement.ofJson? Replacement.toJson Replacement.Fits ∧
    Codes Fix.ofJson? Fix.toJson Fix.Fits ∧
    Codes Finding.ofJson? Finding.toJson Finding.Fits ∧
    Codes FileResult.ofJson? FileResult.toJson FileResult.Fits ∧
    Codes Report.ofJson? Report.toJson Report.Fits ∧
    Codes Span.ofJson? Span.toJson Span.Fits ∧
    Codes Diagnostic.ofJson? Diagnostic.toJson Diagnostic.Fits ∧
    Codes Edit.ofJson? Edit.toJson Edit.Fits ∧
    Codes FileEdits.ofJson? FileEdits.toJson FileEdits.Fits ∧
    Codes CodeAction.ofJson? CodeAction.toJson CodeAction.Fits ∧
    Codes CombinedActions.ofJson? CombinedActions.toJson CombinedActions.Fits :=
  ⟨codes_replacement, codes_fix, codes_finding, codes_fileResult, codes_report, codes_span,
    codes_diagnostic, codes_edit, codes_fileEdits, codes_codeAction, codes_combinedActions⟩

/-- A report whose findings have no fix, an empty one and one of a single
replacement, and a group of fixes with a command. -/
theorem reading_undoes_writing_fixes :
    let fixes : List (Option Fix) := [none, some ⟨[]⟩, some ⟨[.ofBounds 2 5 "x"]⟩]
    let report : Report :=
      { results := [{
          file := ⟨"/w/a.ts"⟩
          findings := fixes.map fun fix => { message := "m", line := some 1, fix } }] }
    let actions : CombinedActions :=
      { changes := [⟨⟨"/w/a.ts"⟩, [⟨⟨2, 3⟩, "x"⟩]⟩]
        commands := [.obj [("a", .null), ("b", .arr [.int (-1), .str "c"])]] }
    report.Fits ∧ Report.ofJson? report.toJson = some report ∧
      actions.Fits ∧ CombinedActions.ofJson? actions.toJson = some actions := by
  intro fixes report actions
  have hreport : report.Fits := by
    simp [report, fixes, Report.Fits, FileResult.Fits, Finding.Fits, Fix.Fits, Replacement.Fits,
      Replacement.ofBounds]
  have hactions : actions.Fits := by
    refine ⟨by simp [actions, FileEdits.Fits, Edit.Fits, Span.Fits], fun command hcommand => ?_⟩
    have hkeys : ("a" : String) < "b" := by decide
    rw [List.mem_singleton.mp hcommand]
    exact ⟨⟨trivial, ⟨trivial, trivial, trivial⟩, trivial⟩, List.pairwise_pair.mpr hkeys⟩
  obtain ⟨_, _, _, _, hcodes, _, _, _, _, _, hcodes'⟩ := reading_undoes_writing
  exact ⟨hreport, hcodes.back report hreport, hactions, hcodes'.back actions hactions⟩

end LintLayer
