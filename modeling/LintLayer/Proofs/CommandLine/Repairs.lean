import LintLayer.Proofs.CommandLine.Visit

/-!
# What a command-line run changes

A run lints the files that come before the first one that cannot be read, one
visit after the other.  The only thing that a visit can change on the disk is
the text of its own file, and it does so only to fix what its pass has found on
that very text.  `Framed` says which entries of a disk may have changed;
`framed_next` is the step and `framed_travel` the result for many files.
`run_changes_only_fixes` says for every command line what the run printed, how
it ended and what it left on the disk.

All of this is about disks without links on which a file that can be read can
be written (`exists_writeText`).  On such a disk no run ends because a fix could
not be written, so `Failure.unwritable` is no answer of a run here.
-/

namespace LintLayer.CommandLine

open Analyzer (Library)

/-! ## Many visits -/

/-- The files before the first one that cannot be linted. -/
def readable (machine : Machine) (files : List (Path × Path)) : List (Path × Path) :=
  files.takeWhile fun file => (obstacle? machine file.2).isNone

/-- The visit of a file. -/
def visitOf (file : Path × Path) (state : Layer Library × Machine) : Visit :=
  ⟨file.1, file.2, state.1, state.2⟩

/-- The visits of files, each in the state that the one before it left. -/
def itinerary (session : Session) (fix : Bool) :
    List (Path × Path) → Layer Library × Machine → List Visit
  | [], _ => []
  | file :: files, state =>
    visitOf file state ::
      itinerary session fix files ((visitOf file state).next session fix)

/-- The layer and the machine after the visits of files. -/
def travel (session : Session) (fix : Bool) (files : List (Path × Path))
    (state : Layer Library × Machine) : Layer Library × Machine :=
  files.foldl (fun state file => (visitOf file state).next session fix) state

/-! ## What may have changed -/

/-- All entries are as before, but files that one of the paths leads to may
have another text. -/
structure Framed (paths : List Path) (before after : Machine) : Prop where
  directory : after.directory = before.directory
  rewritten : before.disk.Rewritten after.disk
  frame : ∀ place, (∀ path ∈ paths, before.disk.locate before.directory path ≠ .ok place) →
    after.disk.entryAt? place = before.disk.entryAt? place

namespace Framed

variable {before after later : Machine} {paths more : List Path}

theorem refl (machine : Machine) : Framed [] machine machine :=
  ⟨rfl, .refl _, fun _ _ => rfl⟩

theorem trans (hfirst : Framed paths before after) (hsecond : Framed more after later) :
    Framed (paths ++ more) before later := by
  refine ⟨hsecond.directory.trans hfirst.directory, hfirst.rewritten.trans hsecond.rewritten, ?_⟩
  intro place hfree
  have hafter : after.disk.entryAt? place = before.disk.entryAt? place :=
    hfirst.frame place fun path hpath => hfree path (List.mem_append_left _ hpath)
  have hlater : later.disk.entryAt? place = after.disk.entryAt? place := by
    refine hsecond.frame place fun path hpath => ?_
    rw [hfirst.rewritten.locate_eq, hfirst.directory]
    exact hfree path (List.mem_append_right _ hpath)
  exact hlater.trans hafter

theorem obstacle?_eq (h : Framed paths before after) : obstacle? after = obstacle? before :=
  obstacle?_of_rewritten h.rewritten h.directory

end Framed

/-- A visit changes at most the text of its own file. -/
theorem Visit.Treated.framed {session : Session} {fix : Bool} {visit : Visit} {after : Machine}
    (h : visit.Treated session fix after.disk)
    (hdirectory : after.directory = visit.machine.directory) :
    Framed [visit.path] visit.machine after := by
  generalize hdisk : after.disk = disk at h
  cases h with
  | left => exact ⟨hdirectory, hdisk ▸ .refl _, fun _ _ => by rw [hdisk]⟩
  | fixed _ _ _ hread hlocate =>
    obtain ⟨place, content, hplace, hentry, hcontent⟩ := Disk.readText_eq_ok_iff.mp hread
    obtain rfl := Except.ok.inj (hplace.symm.trans hlocate)
    have hrewritten := Disk.Rewritten.put hentry (Option.isSome_of_eq_some hcontent)
    refine ⟨hdirectory, hdisk ▸ hrewritten _, ?_⟩
    intro other hfree
    have hother : other ≠ place := by
      rintro rfl
      exact hfree visit.path (List.mem_singleton.mpr rfl) hlocate
    rw [hdisk, Disk.entryAt?_put _ (Disk.ne_root_of_file hentry), if_neg hother]

section Visits

variable {session : Session} (h : session.ReadsDisk) (fix : Bool)

include h

/-- The visit of a file changes at most its text, and no obstacle. -/
theorem framed_next {file : Path × Path} {state : Layer Library × Machine}
    (hclear : obstacle? state.2 file.2 = none) :
    Framed [file.2] state.2 ((visitOf file state).next session fix).2 := by
  have hlint := lintFile_of_clear fix (visitOf file state) h hclear
  exact hlint.2.1.framed hlint.2.2

/-- Files that can all be linted still can after the first of them. -/
theorem clear_next {file : Path × Path} {files : List (Path × Path)}
    {state : Layer Library × Machine}
    (hclear : ∀ other ∈ file :: files, obstacle? state.2 other.2 = none) :
    ∀ other ∈ files,
      obstacle? ((visitOf file state).next session fix).2 other.2 = none := by
  intro other hother
  rw [(framed_next h fix (hclear file List.mem_cons_self)).obstacle?_eq]
  exact hclear other (List.mem_cons_of_mem file hother)

variable {files : List (Path × Path)} {state : Layer Library × Machine}

/-- Visits change at most the texts of their files. -/
theorem framed_travel (hclear : ∀ file ∈ files, obstacle? state.2 file.2 = none) :
    Framed (files.map Prod.snd) state.2 (travel session fix files state).2 := by
  induction files generalizing state with
  | nil => exact .refl state.2
  | cons file files ih =>
    have hfirst := framed_next h fix (hclear file List.mem_cons_self)
    exact hfirst.trans (ih (clear_next h fix hclear))

/-- Every visit treats the disk as it should. -/
theorem treated_of_mem_itinerary (hclear : ∀ file ∈ files, obstacle? state.2 file.2 = none)
    {visit : Visit} (hvisit : visit ∈ itinerary session fix files state) :
    visit.Treated session fix (visit.next session fix).2.disk := by
  induction files generalizing state with
  | nil => cases hvisit
  | cons file files ih =>
    rcases List.mem_cons.mp hvisit with rfl | hlater
    · have hlint := lintFile_of_clear fix (visitOf file state) h (hclear file List.mem_cons_self)
      exact hlint.2.1
    · exact ih (clear_next h fix hclear) hlater

/-- Without fixing nothing is written. -/
theorem disk_travel_of_unfixed (hclear : ∀ file ∈ files, obstacle? state.2 file.2 = none) :
    (travel session false files state).2.disk = state.2.disk := by
  induction files generalizing state with
  | nil => rfl
  | cons file files ih =>
    have hlater := ih (clear_next h false hclear)
    have hfirst := (lintFile_of_clear false (visitOf file state) h
      (hclear file List.mem_cons_self)).2.1
    generalize hdisk : ((visitOf file state).next session false).2.disk = disk at hfirst hlater
    cases hfirst with
    | left => exact hlater
    | fixed hfix => cases hfix

end Visits

/-! ## The transcript -/

theorem Transcript.exitCode_eq_two_iff {transcript : Transcript} :
    transcript.exitCode = 2 ↔ transcript.failure ≠ none := by
  unfold exitCode
  cases transcript.failure <;> cases transcript.errors <;> simp

theorem Transcript.exitCode_eq_one_iff {transcript : Transcript} :
    transcript.exitCode = 1 ↔ transcript.failure = none ∧ transcript.errors = true := by
  unfold exitCode
  cases transcript.failure <;> cases transcript.errors <;> simp

section Transcript

variable {session : Session} {fix : Bool} {file : Path × Path} {files : List (Path × Path)}
  {state : Layer Library × Machine} {layer : Layer Library} {machine : Machine}

theorem lintFiles_of_error {failure : Failure}
    (hlint : lintFile session fix file.1 file.2 state.1 state.2 =
      ((.error failure, layer), machine)) :
    lintFiles session fix (file :: files) state.1 state.2 =
      (({ failure := some failure }, layer), machine) := by
  rw [lintFiles]
  simp only [ExceptT.run, bind, StateT.bind, hlint]
  rfl

theorem lintFiles_of_ok {lines : List String} {errors : Bool}
    (hlint : lintFile session fix file.1 file.2 state.1 state.2 =
      ((.ok (lines, errors), layer), machine)) :
    lintFiles session fix (file :: files) state.1 state.2 =
      let later := lintFiles session fix files layer machine
      (({ later.1.1 with
          lines := lines ++ later.1.1.lines
          errors := errors || later.1.1.errors }, later.1.2), later.2) := by
  rw [lintFiles]
  simp only [ExceptT.run, bind, StateT.bind, hlint]
  rfl

variable (h : session.ReadsDisk) (fix)

include h

/-- A run visits the readable files, prints what is shown of them, and ends at
the first obstacle. -/
theorem lintFiles_told (files : List (Path × Path)) (state : Layer Library × Machine) :
    (lintFiles session fix files state.1 state.2).1.1 =
      { lines := (itinerary session fix (readable state.2 files) state).flatMap
          (Visit.lines session fix)
        errors := (itinerary session fix (readable state.2 files) state).any
          (Visit.hasError session fix)
        failure := files.findSome? fun file => obstacle? state.2 file.2 } ∧
      (lintFiles session fix files state.1 state.2).2.files =
        (travel session fix (readable state.2 files) state).2.files := by
  induction files generalizing state with
  | nil => exact ⟨rfl, rfl⟩
  | cons file files ih =>
    rcases hobstacle : obstacle? state.2 file.2 with _ | failure
    · have hreadable : readable state.2 (file :: files) =
          file :: readable ((visitOf file state).next session fix).2 files := by
        rw [readable, List.takeWhile_cons_of_pos (by rw [hobstacle]; rfl), readable,
          (framed_next h fix hobstacle).obstacle?_eq]
      have hfailure : ((file :: files).findSome? fun other => obstacle? state.2 other.2) =
          files.findSome? fun other =>
            obstacle? ((visitOf file state).next session fix).2 other.2 := by
        rw [List.findSome?_cons, hobstacle, (framed_next h fix hobstacle).obstacle?_eq]
      obtain ⟨htold, hfiles⟩ := ih ((visitOf file state).next session fix)
      rw [hreadable, hfailure,
        lintFiles_of_ok (lintFile_of_clear fix (visitOf file state) h hobstacle).1]
      refine ⟨?_, hfiles⟩
      simp only [htold]
      rfl
    · obtain ⟨layer, machine, hlint, hfiles⟩ :=
        lintFile_of_obstacle fix (visitOf file state) h hobstacle
      have hreadable : readable state.2 (file :: files) = [] := by
        rw [readable, List.takeWhile_cons_of_neg (by rw [hobstacle]; simp)]
      rw [hreadable, List.findSome?_cons, hobstacle, lintFiles_of_error hlint]
      exact ⟨rfl, hfiles⟩

end Transcript

/-! ## The whole run -/

/-- What a run over files prints, how it ends and what it leaves on the disk,
where `state` is the layer and the machine that it starts with. -/
structure Faithful (session : Session) (fix : Bool) (files : List (Path × Path))
    (state : Layer Library × Machine) (transcript : Transcript) (after : Machine) : Prop where
  /-- The run fails at the first file that could not be read from the start. -/
  failure : transcript.failure = files.findSome? fun file => obstacle? state.2 file.2
  /-- The exit code is two if there is such a file. -/
  aborted : transcript.exitCode = 2 ↔ ∃ file ∈ files, obstacle? state.2 file.2 ≠ none
  /-- The exit code is one if there is none and an error was printed. -/
  errors : transcript.exitCode = 1 ↔
    (∀ file ∈ files, obstacle? state.2 file.2 = none) ∧
      ∃ visit ∈ itinerary session fix (readable state.2 files) state,
        ∃ diagnostic ∈ visit.shown session fix, diagnostic.category = .error
  /-- The lines are those of the files before it. -/
  lines : transcript.lines =
    (itinerary session fix (readable state.2 files) state).flatMap (Visit.lines session fix)
  /-- Each of these files is left alone or fixed. -/
  treated : ∀ visit ∈ itinerary session fix (readable state.2 files) state,
    visit.Treated session fix (visit.next session fix).2.disk
  /-- Nothing is written after the last of them. -/
  disk : after.disk = (travel session fix (readable state.2 files) state).2.disk
  /-- Every path leads where it led before. -/
  locate : ∀ start path, after.disk.locate start path = state.2.disk.locate start path
  /-- What none of these files leads to is as it was. -/
  frame : ∀ place,
    (∀ file ∈ readable state.2 files,
      state.2.disk.locate state.2.directory file.2 ≠ .ok place) →
    after.disk.entryAt? place = state.2.disk.entryAt? place
  /-- Without fixing the whole disk is as it was. -/
  unfixed : fix = false → after.disk = state.2.disk

theorem obstacle?_of_mem_readable {machine : Machine} {files : List (Path × Path)}
    {file : Path × Path} (hfile : file ∈ readable machine files) :
    obstacle? machine file.2 = none :=
  Option.isNone_iff_eq_none.mp (List.all_eq_true.mp List.all_takeWhile file hfile)

theorem lintFiles_faithful {session : Session} (h : session.ReadsDisk) (fix : Bool)
    (files : List (Path × Path)) (state : Layer Library × Machine) :
    Faithful session fix files state (lintFiles session fix files state.1 state.2).1.1
      (lintFiles session fix files state.1 state.2).2 := by
  obtain ⟨htold, hfiles⟩ := lintFiles_told fix h files state
  have hdisk : (lintFiles session fix files state.1 state.2).2.disk = _ :=
    congrArg Prod.fst hfiles
  have hclear : ∀ file ∈ readable state.2 files, obstacle? state.2 file.2 = none :=
    fun _ => obstacle?_of_mem_readable
  have hframed := framed_travel h fix hclear
  have hnone : (files.findSome? fun file => obstacle? state.2 file.2) = none ↔
      ∀ file ∈ files, obstacle? state.2 file.2 = none :=
    List.findSome?_eq_none_iff
  constructor
  case failure => rw [htold]
  case aborted =>
    rw [Transcript.exitCode_eq_two_iff, htold, Ne, hnone]
    push Not
    rfl
  case errors =>
    rw [Transcript.exitCode_eq_one_iff, htold, hnone, List.any_eq_true]
    simp only [Visit.hasError, List.any_eq_true, decide_eq_true_eq]
  case lines => rw [htold]
  case treated => exact fun visit hvisit => treated_of_mem_itinerary h fix hclear hvisit
  case disk => exact hdisk
  case locate =>
    intro start path
    rw [hdisk]
    exact hframed.rewritten.locate_eq start path
  case frame =>
    intro place hfree
    rw [hdisk]
    refine hframed.frame place fun path hpath => ?_
    obtain ⟨file, hfile, rfl⟩ := List.mem_map.mp hpath
    exact hfree file hfile
  case unfixed =>
    rintro rfl
    rw [hdisk]
    exact disk_travel_of_unfixed h hclear

/-- The session of a run. -/
def sessionFor (machine : Machine) (workspace : Path) : Session :=
  { host := diskHost workspace, tools := Analyzer.toolchain (machine.which? "node") }

theorem sessionFor_readsDisk (machine : Machine) (workspace : Path) :
    (sessionFor machine workspace).ReadsDisk :=
  ⟨⟨workspace, rfl⟩, Analyzer.toolchain_leaves _⟩

theorem lint_of_options {machine : Machine} {arguments : Arguments} {options : Options}
    (h : optionsFor machine arguments = .ok options) :
    lint arguments machine =
      let session := sessionFor machine (targets machine.directory.path arguments).1
      let linted := lintFiles session arguments.fix (targets machine.directory.path arguments).2
        { options, runner := .empty, problems := .empty } machine
      (linted.1.1, linted.2) := by
  simp only [lint, bind, StateT.bind, get, getThe, MonadStateOf.get, StateT.get, pure, h]
  rw [create_eq]
  rfl

theorem lint_of_failure {machine : Machine} {arguments : Arguments} {failure : Failure}
    (h : optionsFor machine arguments = .error failure) :
    lint arguments machine = ({ failure := some failure }, machine) := by
  simp only [lint, bind, StateT.bind, get, getThe, MonadStateOf.get, StateT.get, pure, h]
  rfl

/-- A command line that asks for files to be linted changes only what it fixes.
Every other command line, and one whose options cannot be loaded, changes
nothing at all.  The disk has no links, and what can be read there can be
written. -/
theorem run_changes_only_fixes (words : List String) (machine : Machine) :
    match Invocation.ofWords words with
    | .lint arguments =>
      match optionsFor machine arguments with
      | .ok options =>
        Faithful (sessionFor machine (targets machine.directory.path arguments).1) arguments.fix
          (targets machine.directory.path arguments).2
          ({ options, runner := .empty, problems := .empty }, machine)
          (run words machine).1 (run words machine).2
      | .error failure => run words machine = ({ failure := some failure }, machine)
    | .misuse => run words machine = ({ failure := some .misuse }, machine)
    | _ => (run words machine).2 = machine ∧ (run words machine).1.exitCode = 0 := by
  unfold run
  cases Invocation.ofWords words with
  | version | help => exact ⟨rfl, rfl⟩
  | misuse => rfl
  | lint arguments =>
    dsimp only
    rcases hoptions : optionsFor machine arguments with failure | options
    · exact lint_of_failure hoptions
    · rw [lint_of_options hoptions]
      exact lintFiles_faithful (sessionFor_readsDisk _ _) arguments.fix _
        ({ options, runner := .empty, problems := .empty }, machine)

end LintLayer.CommandLine
