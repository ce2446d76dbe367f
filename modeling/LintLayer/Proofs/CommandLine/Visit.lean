import LintLayer.Proofs.CommandLine.Untouched
import LintLayer.Proofs.Disk.Rewriting
import LintLayer.Proofs.Layer.LatestPass

/-!
# One file of a command-line run

A visit is a file of a run together with the layer and the machine when its
turn comes.  `Visit.batch` is what there is to fix by the pass over the file at
that moment, and `Visit.Treated` says what may stand on the disk afterwards:
the same as before, or the fixed text in place of the text that the pass saw.

`obstacle?` says why a file cannot be linted.  `lintFile_of_obstacle` and
`lintFile_of_clear` say what linting does with and without an obstacle.
-/

namespace LintLayer.CommandLine

open Analyzer (Library)

/-- Why the file cannot be linted. -/
def obstacle? (machine : Machine) (path : Path) : Option Failure :=
  if machine.isFile path then
    match machine.readText path with
    | .ok _ => none
    | .error fault => some (.unreadable path fault)
  else some (.missingFile path)

/-- A file of a run, as it is named and as it is found, with the layer and the
machine when its turn comes. -/
structure Visit where
  file : Path
  path : Path
  layer : Layer Library
  machine : Machine

namespace Visit

variable (session : Session) (fix : Bool) (visit : Visit)

/-- How the pass over the file goes. -/
def verdict : Layer.Verdict :=
  Layer.verdict session.host session.tools visit.path visit.layer visit.machine

/-- The edits of the fixable problems of the pass that go together. -/
def batch : List Edit :=
  let problems := Problem.onePerSpan ((visit.verdict session).problems visit.path)
  Batch.select ((problems.filter Problem.fixable).map Problem.edits)

/-- The layer and the machine after the file. -/
def next : Layer Library × Machine :=
  Layer.perform (lintFile session fix visit.file visit.path).run (visit.layer, visit.machine)

/-- The diagnostics that are printed for the file. -/
def shown : List Diagnostic :=
  ((diagnose session fix visit.path).run visit.layer visit.machine).1.1.toOption.getD []

/-- Whether an error is printed for the file. -/
def hasError : Bool :=
  (visit.shown session fix).any fun diagnostic => diagnostic.category = .error

/-- The lines that are printed for the file.  They count in the text that it
has afterwards. -/
def lines : List String :=
  let text := ((visit.next session fix).2.readText visit.path).toOption.getD ""
  (visit.shown session fix).map (lineOf visit.file (LineTable.ofText text))

/-- The disks that the visit can leave: the one that it met, if nothing is to
be fixed, or else the one where the text that the pass saw, which is the text
that the file had, is replaced by the fixed text. -/
inductive Treated : Disk → Prop where
  | left (hnone : fix = false ∨ visit.batch session = []) : Treated visit.machine.disk
  | fixed {text : String} {result : RunResult} {place : Place}
      (hfix : fix = true)
      (hbatch : visit.batch session ≠ [])
      (hverdict : visit.verdict session = .linted text result)
      (hread : visit.machine.readText visit.path = .ok text)
      (hlocate : visit.machine.disk.locate visit.machine.directory visit.path = .ok place) :
      Treated (visit.machine.disk.put place
        (.file (.text (Edit.applyAll text (visit.batch session)))))

end Visit

/-! ## The steps of an action -/

section Steps

variable {α β : Type} {layer middle : Layer Library} {machine reached : Machine} {path : Path}

theorem bind_of_ok {first : Action α} {answer : α}
    (h : first layer machine = ((.ok answer, middle), reached)) (next : α → Action β) :
    (first >>= next) layer machine = next answer middle reached := by
  change StateT.bind first (ExceptT.bindCont next) layer machine = _
  simp only [StateT.bind, bind, h]
  rfl

theorem bind_of_error {first : Action α} {failure : Failure}
    (h : first layer machine = ((.error failure, middle), reached)) (next : α → Action β) :
    (first >>= next) layer machine = ((.error failure, middle), reached) := by
  change StateT.bind first (ExceptT.bindCont next) layer machine = _
  simp only [StateT.bind, bind, h]
  rfl

theorem getThe_machine_apply :
    (getThe Machine : Action Machine) layer machine = ((.ok machine, layer), machine) := rfl

theorem getThe_layer_apply :
    (getThe (Layer Library) : Action (Layer Library)) layer machine =
      ((.ok layer, layer), machine) := rfl

/-- An action of the layer cannot fail. -/
theorem lift_of_apply {action : Layer.Action Machine Library α} {answer : α}
    (h : action layer machine = ((answer, middle), reached)) :
    (liftM action : Action α) layer machine = ((.ok answer, middle), reached) := by
  have hlift : (liftM action : Action α) layer machine =
      ((.ok (action layer machine).1.1, (action layer machine).1.2),
        (action layer machine).2) := rfl
  rw [hlift, h]

theorem readFile_of_ok {text : String} (h : machine.readText path = .ok text) :
    readFile path layer machine = ((.ok text, layer), machine) := by
  rw [readFile, bind_of_ok getThe_machine_apply, h]
  rfl

theorem readFile_of_error {fault : Fault} (h : machine.readText path = .error fault) :
    readFile path layer machine = ((.error (.unreadable path fault), layer), machine) := by
  rw [readFile, bind_of_ok getThe_machine_apply, h]
  rfl

theorem writeFile_of_ok {text : String} (h : machine.writeText path text = .ok reached) :
    writeFile path text layer machine = ((.ok (), layer), reached) := by
  rw [writeFile, bind_of_ok getThe_machine_apply, h]
  rfl

theorem fixFile_of_error {fault : Fault} (h : machine.readText path = .error fault) :
    fixFile path layer machine = ((.error (.unreadable path fault), layer), machine) := by
  rw [fixFile, bind_of_error (readFile_of_error h)]

theorem fixFile_of_none {text : String} (hread : machine.readText path = .ok text)
    (hnone : fixEdits layer path = []) :
    fixFile path layer machine = ((.ok false, layer), machine) := by
  rw [fixFile, bind_of_ok (readFile_of_ok hread), bind_of_ok getThe_layer_apply]
  simp only [hnone, List.isEmpty_nil, if_true]
  rfl

theorem fixFile_of_some {text : String} (hread : machine.readText path = .ok text)
    (hsome : fixEdits layer path ≠ [])
    (hwrite : machine.writeText path (Edit.applyAll text (fixEdits layer path)) = .ok reached) :
    fixFile path layer machine = ((.ok true, layer), reached) := by
  have hedits : (fixEdits layer path).isEmpty = false := List.isEmpty_eq_false_iff.mpr hsome
  rw [fixFile, bind_of_ok (readFile_of_ok hread), bind_of_ok getThe_layer_apply]
  simp only [hedits, Bool.false_eq_true, if_false]
  rw [bind_of_ok (writeFile_of_ok hwrite)]
  rfl

end Steps

/-! ## What the files decide -/

section Files

variable {machine other : Machine}

theorem readText_of_files (h : other.files = machine.files) (path : Path) :
    other.readText path = machine.readText path := by
  obtain ⟨hdisk, hdirectory⟩ := Prod.mk.inj h
  rw [Machine.readText, Machine.readText, hdisk, hdirectory]

/-- A file can be written as long as the disk is the one where it was
found. -/
theorem exists_writeText {path : Path} {place : Place} {content : Content}
    (h : other.files = machine.files)
    (hlocate : machine.disk.locate machine.directory path = .ok place)
    (hentry : machine.disk.entryAt? place = some (.file content)) (text : String) :
    ∃ written, other.writeText path text = .ok written ∧
      written.files = (machine.disk.put place (.file (.text text)), machine.directory) := by
  obtain ⟨hdisk, hdirectory⟩ := Prod.mk.inj h
  refine ⟨{ other with disk := machine.disk.put place (.file (.text text)) }, ?_, ?_⟩
  · rw [Machine.writeText, hdisk, hdirectory, Disk.writeText_of_file hlocate hentry]
    rfl
  · rw [Machine.files, hdirectory]

/-- A write changes no obstacle. -/
theorem obstacle?_of_rewritten (hdisk : machine.disk.Rewritten other.disk)
    (hdirectory : other.directory = machine.directory) :
    obstacle? other = obstacle? machine := by
  funext path
  have hfile : other.isFile path = machine.isFile path := by
    rw [Machine.isFile, Machine.isFile, hdirectory, hdisk.isFile_eq]
  have hfault (fault : Fault) :
      other.readText path = .error fault ↔ machine.readText path = .error fault := by
    rw [Machine.readText, Machine.readText, hdirectory, hdisk.readText_eq_error_iff]
  unfold obstacle?
  rw [hfile]
  rcases hother : other.readText path with fault | text
  · rw [(hfault fault).mp hother]
  · rcases hmachine : machine.readText path with fault | held
    · rw [(hfault fault).mpr hmachine] at hother
      cases hother
    · rfl

theorem of_obstacle?_eq_none {path : Path} (h : obstacle? machine path = none) :
    machine.isFile path = true ∧ ∃ text, machine.readText path = .ok text := by
  unfold obstacle? at h
  split at h
  · rename_i hfile
    split at h
    · rename_i text hread
      exact ⟨hfile, text, hread⟩
    · cases h
  · cases h

end Files

/-! ## One pass -/

/-- The session reads from the disk, and nothing else in it touches the
files. -/
structure Session.ReadsDisk (session : Session) : Prop where
  host : ∃ workspace, session.host = diskHost workspace
  tools : session.tools.LeavesFiles

namespace Session.ReadsDisk

variable {session : Session} (h : session.ReadsDisk)

include h

theorem files_semantic (path : Path) (layer : Layer Library) (machine : Machine) :
    (Layer.semantic session.host session.tools path layer machine).2.files = machine.files := by
  obtain ⟨workspace, hhost⟩ := h.host
  rw [hhost]
  exact semantic_keeps_files workspace h.tools path layer machine

/-- The pass is a request to the disk, answered as its verdict says. -/
theorem answered (visit : Visit) : ∃ workspace answer,
    Layer.Answered (diskHost workspace) session.tools visit.path visit.layer visit.machine
      (visit.verdict session) answer := by
  obtain ⟨workspace, hhost⟩ := h.host
  have hanswered := Layer.semantic_answered session.host session.tools visit.path visit.layer
    visit.machine
  rw [hhost] at hanswered
  rw [Visit.verdict, hhost]
  exact ⟨workspace, _, hanswered⟩

/-- The host has no diagnostics of its own that could hold a pass back. -/
theorem verdict_ne_suppressed (visit : Visit) : visit.verdict session ≠ .suppressed := by
  intro hverdict
  obtain ⟨workspace, answer, hanswered⟩ := h.answered visit
  rw [hverdict] at hanswered
  cases hanswered with
  | suppressed hown hsuppress =>
    cases hown
    simp at hsuppress

/-- The text that a pass sees is the text of the file. -/
theorem readText_of_linted {visit : Visit} {text : String} {result : RunResult}
    (hverdict : visit.verdict session = .linted text result) :
    visit.machine.readText visit.path = .ok text := by
  obtain ⟨workspace, answer, hanswered⟩ := h.answered visit
  rw [hverdict] at hanswered
  cases hanswered with
  | linted hown _ _ htext =>
    cases hown
    have hsome : (visit.machine.readText visit.path).toOption = some text :=
      congrArg Prod.fst htext
    rcases hread : visit.machine.readText visit.path with fault | held
    · rw [hread] at hsome
      cases hsome
    · rw [hread] at hsome
      cases hsome
      rfl

/-- What there is to fix after a pass is the batch of the pass. -/
theorem fixEdits_semantic (visit : Visit) :
    fixEdits (Layer.semantic session.host session.tools visit.path visit.layer visit.machine).1.2
      visit.path = visit.batch session := by
  have hkept :
      (Layer.semantic session.host session.tools visit.path visit.layer
        visit.machine).1.2.problems.get? visit.path =
      (visit.verdict session).kept visit.path none := by
    rw [Layer.get?_problems_semantic, if_pos rfl]
    exact Layer.Verdict.kept_of_pass (h.verdict_ne_suppressed visit)
  rw [fixEdits, Layer.problemsOf, hkept, Visit.batch]
  cases visit.verdict session with
  | linted text result =>
    simp only [Layer.Verdict.kept, Layer.Verdict.problems, ProblemSet.ofFindings_eq,
      ProblemSet.problems_ofProblems]
  | suppressed | definition | noText | failed => rfl

/-- Something to fix is on the text of the file. -/
theorem exists_linted_of_batch {visit : Visit} (hbatch : visit.batch session ≠ []) :
    ∃ text result, visit.verdict session = .linted text result ∧
      visit.machine.readText visit.path = .ok text := by
  rcases hverdict : visit.verdict session with _ | _ | _ | error | ⟨text, result⟩
  case linted => exact ⟨text, result, rfl, h.readText_of_linted hverdict⟩
  -- without a result there are no problems
  all_goals
    rw [Visit.batch, hverdict] at hbatch
    simp [Layer.Verdict.problems, Problem.onePerSpan, Batch.select, Batch.kept, Batch.inOrder,
      Batch.scan] at hbatch

end Session.ReadsDisk

/-! ## One file -/

/-- How the diagnostics of a file are made: by one pass, or by a second one
after a write.  That the file has no text is seen only when it is to be
fixed. -/
inductive Diagnosed (session : Session) (fix : Bool) (visit : Visit) :
    (Except Failure (List Diagnostic) × Layer Library) × Machine → Prop where
  | found {answer layer machine}
      (hnone : fix = false ∨ visit.batch session = [])
      (hfiles : machine.files = visit.machine.files) :
      Diagnosed session fix visit ((.ok answer, layer), machine)
  | unreadable {fault layer machine}
      (hread : visit.machine.readText visit.path = .error fault)
      (hfiles : machine.files = visit.machine.files) :
      Diagnosed session fix visit ((.error (.unreadable visit.path fault), layer), machine)
  | fixed {answer layer machine text result place content}
      (hfix : fix = true)
      (hbatch : visit.batch session ≠ [])
      (hverdict : visit.verdict session = .linted text result)
      (hlocate : visit.machine.disk.locate visit.machine.directory visit.path = .ok place)
      (hentry : visit.machine.disk.entryAt? place = some (.file content))
      (htext : content.text? = some text)
      (hfiles : machine.files = (visit.machine.disk.put place
        (.file (.text (Edit.applyAll text (visit.batch session)))), visit.machine.directory)) :
      Diagnosed session fix visit ((.ok answer, layer), machine)

section File

variable {session : Session} {fix : Bool} {visit : Visit}

/-- A file is linted by printing the diagnostics that were made. -/
theorem lintFile_of_diagnose {answer : List Diagnostic} {layer : Layer Library}
    {machine : Machine} {text : String}
    (hfile : visit.machine.isFile visit.path = true)
    (houtcome : diagnose session fix visit.path visit.layer visit.machine =
      ((.ok answer, layer), machine))
    (hread : machine.readText visit.path = .ok text) :
    visit.next session fix = (layer, machine) ∧
      lintFile session fix visit.file visit.path visit.layer visit.machine =
        ((.ok (visit.lines session fix, visit.hasError session fix), layer), machine) := by
  have hlint : lintFile session fix visit.file visit.path visit.layer visit.machine =
      ((.ok (answer.map (lineOf visit.file (LineTable.ofText text)),
        answer.any fun diagnostic => diagnostic.category = .error), layer), machine) := by
    rw [lintFile, bind_of_ok getThe_machine_apply, if_pos hfile, bind_of_ok houtcome,
      bind_of_ok (readFile_of_ok hread)]
    rfl
  have hnext : visit.next session fix = (layer, machine) := by
    rw [Visit.next, Layer.perform, ExceptT.run, hlint]
  have hshown : visit.shown session fix = answer := by
    rw [Visit.shown, ExceptT.run, houtcome]
    rfl
  refine ⟨hnext, ?_⟩
  rw [hlint, Visit.lines, Visit.hasError, hnext, hshown, hread]
  rfl

variable (h : session.ReadsDisk) (fix visit)

include h

theorem diagnose_diagnosed :
    Diagnosed session fix visit
      (diagnose session fix visit.path visit.layer visit.machine) := by
  rcases hpass : Layer.semantic session.host session.tools visit.path visit.layer visit.machine
    with ⟨⟨found, layer⟩, machine⟩
  have hfiles := h.files_semantic visit.path visit.layer visit.machine
  have hedits := h.fixEdits_semantic visit
  rw [hpass] at hfiles hedits
  have hread := readText_of_files hfiles visit.path
  rw [diagnose, bind_of_ok (lift_of_apply hpass)]
  cases fix with
  | false => exact .found (Or.inl rfl) hfiles
  | true =>
    rcases htext : visit.machine.readText visit.path with fault | text
    · rw [htext] at hread
      rw [if_pos rfl, bind_of_error (fixFile_of_error hread)]
      exact .unreadable htext hfiles
    rw [htext] at hread
    by_cases hbatch : visit.batch session = []
    · rw [if_pos rfl, bind_of_ok (fixFile_of_none hread (hedits.trans hbatch))]
      exact .found (Or.inr hbatch) hfiles
    -- the pass saw the text that is read again before the write
    obtain ⟨seen, result, hverdict, hseen⟩ := h.exists_linted_of_batch hbatch
    obtain rfl : text = seen := Except.ok.inj (htext.symm.trans hseen)
    obtain ⟨place, content, hlocate, hentry, hcontent⟩ := Disk.readText_eq_ok_iff.mp htext
    obtain ⟨fixed, hwrite, hfixed⟩ := exists_writeText hfiles hlocate hentry
      (Edit.applyAll text (visit.batch session))
    rw [← hedits] at hwrite
    rcases hsecond : Layer.semantic session.host session.tools visit.path layer fixed
      with ⟨⟨answer, later⟩, reached⟩
    have hkept := h.files_semantic visit.path layer fixed
    rw [hsecond] at hkept
    rw [if_pos rfl, bind_of_ok (fixFile_of_some hread (hedits ▸ hbatch) hwrite), if_pos rfl,
      lift_of_apply hsecond]
    exact .fixed rfl hbatch hverdict hlocate hentry hcontent (hkept.trans hfixed)

/-- A file with an obstacle fails with it and is not written. -/
theorem lintFile_of_obstacle {failure : Failure}
    (hobstacle : obstacle? visit.machine visit.path = some failure) :
    ∃ layer machine,
      lintFile session fix visit.file visit.path visit.layer visit.machine =
          ((.error failure, layer), machine) ∧
        machine.files = visit.machine.files := by
  unfold obstacle? at hobstacle
  rw [lintFile, bind_of_ok getThe_machine_apply]
  by_cases hfile : visit.machine.isFile visit.path = true
  · rw [if_pos hfile] at hobstacle ⊢
    rcases htext : visit.machine.readText visit.path with fault | text
    · obtain rfl : Failure.unreadable visit.path fault = failure := by
        rw [htext] at hobstacle
        exact Option.some.inj hobstacle
      have hdiagnosed := diagnose_diagnosed fix visit h
      rcases houtcome : diagnose session fix visit.path visit.layer visit.machine
        with ⟨⟨outcome, layer⟩, machine⟩
      rw [houtcome] at hdiagnosed
      cases hdiagnosed with
      | found hnone hfiles =>
        have hread := (readText_of_files hfiles visit.path).trans htext
        rw [bind_of_ok houtcome, bind_of_error (readFile_of_error hread)]
        exact ⟨_, _, rfl, hfiles⟩
      | unreadable hread hfiles =>
        obtain rfl := Except.error.inj (hread.symm.trans htext)
        rw [bind_of_error houtcome]
        exact ⟨_, _, rfl, hfiles⟩
      | fixed _ _ hverdict =>
        rw [h.readText_of_linted hverdict] at htext
        cases htext
    · rw [htext] at hobstacle
      cases hobstacle
  · rw [if_neg hfile] at hobstacle ⊢
    cases hobstacle
    exact ⟨_, _, rfl, rfl⟩

/-- A file without an obstacle is linted, and the disk is treated as it
should. -/
theorem lintFile_of_clear
    (hclear : obstacle? visit.machine visit.path = none) :
    lintFile session fix visit.file visit.path visit.layer visit.machine =
      ((.ok (visit.lines session fix, visit.hasError session fix), (visit.next session fix).1),
        (visit.next session fix).2) ∧
      visit.Treated session fix (visit.next session fix).2.disk ∧
      (visit.next session fix).2.directory = visit.machine.directory := by
  obtain ⟨hfile, text, htext⟩ := of_obstacle?_eq_none hclear
  have hdiagnosed := diagnose_diagnosed fix visit h
  rcases houtcome : diagnose session fix visit.path visit.layer visit.machine
    with ⟨⟨outcome, layer⟩, machine⟩
  rw [houtcome] at hdiagnosed
  cases hdiagnosed with
  | found hnone hfiles =>
    have hread := (readText_of_files hfiles visit.path).trans htext
    obtain ⟨hnext, hlint⟩ := lintFile_of_diagnose hfile houtcome hread
    obtain ⟨hdisk, hdirectory⟩ := Prod.mk.inj hfiles
    rw [hnext, hdisk]
    exact ⟨hlint, .left hnone, hdirectory⟩
  | unreadable hread hfiles =>
    rw [htext] at hread
    cases hread
  | fixed hfix hbatch hverdict hlocate hentry hcontent hfiles =>
    obtain rfl := Except.ok.inj (htext.symm.trans (h.readText_of_linted hverdict))
    obtain ⟨hdisk, hdirectory⟩ := Prod.mk.inj hfiles
    have hrewritten := Disk.Rewritten.put hentry (Option.isSome_of_eq_some hcontent)
      (Edit.applyAll text (visit.batch session))
    have hread : machine.readText visit.path =
        .ok (Edit.applyAll text (visit.batch session)) := by
      rw [Machine.readText, hdisk, hdirectory, Disk.readText_eq_ok_iff]
      refine ⟨_, .text _, (hrewritten.locate_eq _ _).trans hlocate, ?_, rfl⟩
      rw [Disk.entryAt?_put _ (Disk.ne_root_of_file hentry), if_pos rfl]
    obtain ⟨hnext, hlint⟩ := lintFile_of_diagnose hfile houtcome hread
    rw [hnext, hdisk]
    exact ⟨hlint, .fixed hfix hbatch hverdict htext hlocate, hdirectory⟩

end File

end LintLayer.CommandLine
