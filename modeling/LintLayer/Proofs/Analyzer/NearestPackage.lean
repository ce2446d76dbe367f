import LintLayer.Analyzer.Package
import LintLayer.Proofs.Path.Ancestors

/-!
# The nearest package of the analyzer

Loading walks up from a module path and looks at one manifest after the other.
What one directory holds decides what happens there: a directory without a
manifest, or with the manifest of another package, is passed over, and any other
ends the walk.

* `findPackage_of_passedOver`, `findPackage_of_declares` and
  `findPackage_of_unreadable` say what one directory does to the walk, and
  `sight_cases` says that there is nothing else.
* `findPackage_of_reaches` is the walk up to a directory that it reaches.
* `load_eq_iff` lists the ends of a walk, and `load_nearest` says for each answer
  when it is given.
-/

namespace LintLayer.Analyzer

/-! ## One directory -/

/-- The path of the manifest of a directory. -/
def manifestOf (directory : Path) : Path :=
  directory.join ⟨"package.json"⟩

/-- The directory holds a manifest that can be read. -/
structure Declares (machine : Machine) (directory : Path) (manifest : Manifest) : Prop where
  isFile : machine.isFile (manifestOf directory) = true
  decodes : ∃ text, machine.readText (manifestOf directory) = .ok text ∧
    Manifest.ofText? text = some manifest

/-- The directory holds a manifest that is of no use: its text cannot be read, or it
is not the text of a manifest. -/
inductive Unreadable (machine : Machine) (directory : Path) : Option String → Prop where
  | unread {fault : Fault} (isFile : machine.isFile (manifestOf directory) = true)
      (fails : machine.readText (manifestOf directory) = .error fault) :
      Unreadable machine directory (some fault.message)
  | undecoded {text : String} (isFile : machine.isFile (manifestOf directory) = true)
      (reads : machine.readText (manifestOf directory) = .ok text)
      (fails : Manifest.ofText? text = none) :
      Unreadable machine directory none

/-- The directory holds the manifest of the analyzer. -/
def Names (machine : Machine) (directory : Path) (manifest : Manifest) : Prop :=
  Declares machine directory manifest ∧ manifest.name = some analyzerPackage

/-- The directory holds no manifest, or one with another name or none. -/
def PassedOver (machine : Machine) (directory : Path) : Prop :=
  machine.isFile (manifestOf directory) = true →
    ∃ manifest, Declares machine directory manifest ∧ manifest.name ≠ some analyzerPackage

/-- What the walk can see in a directory. -/
theorem sight_cases (machine : Machine) (directory : Path) :
    PassedOver machine directory ∨ (∃ manifest, Names machine directory manifest) ∨
      ∃ cause, Unreadable machine directory cause := by
  by_cases hfile : machine.isFile (manifestOf directory) = true
  · cases hread : machine.readText (manifestOf directory) with
    | error fault => exact .inr (.inr ⟨_, .unread hfile hread⟩)
    | ok text =>
      cases hdecode : Manifest.ofText? text with
      | none => exact .inr (.inr ⟨_, .undecoded hfile hread hdecode⟩)
      | some manifest =>
        have hdeclares : Declares machine directory manifest := ⟨hfile, text, hread, hdecode⟩
        by_cases hname : manifest.name = some analyzerPackage
        · exact .inr (.inl ⟨manifest, hdeclares, hname⟩)
        · exact .inl fun _ => ⟨manifest, hdeclares, hname⟩
  · exact .inl fun h => absurd h hfile

section Step

variable {machine : Machine} {library directory : Path} {rest : List Path}

/-- A manifest that can be read ends the walk or lets it go on, by its name. -/
theorem findPackage_of_declares {manifest : Manifest} (h : Declares machine directory manifest) :
    findPackage machine library (directory :: rest) =
      if manifest.name = some analyzerPackage then .ok (directory, manifest)
      else findPackage machine library rest := by
  obtain ⟨hfile, text, hread, hdecode⟩ := h
  unfold manifestOf at hfile hread
  simp only [findPackage, hfile, hread, hdecode, if_true]

theorem findPackage_of_passedOver (h : PassedOver machine directory) :
    findPackage machine library (directory :: rest) = findPackage machine library rest := by
  by_cases hfile : machine.isFile (manifestOf directory) = true
  · obtain ⟨manifest, hdeclares, hname⟩ := h hfile
    rw [findPackage_of_declares hdeclares, if_neg hname]
  · rw [manifestOf] at hfile
    rw [findPackage, if_neg hfile]

theorem findPackage_of_unreadable {cause : Option String} (h : Unreadable machine directory cause) :
    findPackage machine library (directory :: rest) =
      .error (.manifest (manifestOf directory) cause) := by
  cases h with
  | unread hfile hread =>
    unfold manifestOf at hfile hread
    simp only [findPackage, hfile, hread, if_true, manifestOf]
  | undecoded hfile hread hdecode =>
    unfold manifestOf at hfile hread
    simp only [findPackage, hfile, hread, hdecode, if_true, manifestOf]

end Step

/-! ## The walk -/

/-- The walk along the directories comes to one of them: all that are met before it
are passed over. -/
def Reaches (machine : Machine) (directories : List Path) (directory : Path) : Prop :=
  ∃ nearer farther, directories = nearer ++ directory :: farther ∧
    ∀ other ∈ nearer, PassedOver machine other

/-- All directories are passed over, or the walk comes to one that is not. -/
theorem passedOver_or_reaches (machine : Machine) (directories : List Path) :
    (∀ directory ∈ directories, PassedOver machine directory) ∨
      ∃ directory, Reaches machine directories directory ∧ ¬ PassedOver machine directory := by
  induction directories with
  | nil => simp
  | cons first rest ih =>
    by_cases hfirst : PassedOver machine first
    · rcases ih with hall | ⟨directory, ⟨nearer, farther, rfl, hnearer⟩, hstops⟩
      · exact .inl (List.forall_mem_cons.mpr ⟨hfirst, hall⟩)
      · exact .inr ⟨directory, ⟨first :: nearer, farther, rfl,
          List.forall_mem_cons.mpr ⟨hfirst, hnearer⟩⟩, hstops⟩
    · exact .inr ⟨first, ⟨[], rest, rfl, by simp⟩, hfirst⟩

/-- Directories that are passed over leave the walk to those behind them. -/
theorem findPackage_append {machine : Machine} {nearer : List Path}
    (h : ∀ directory ∈ nearer, PassedOver machine directory) (library : Path)
    (farther : List Path) :
    findPackage machine library (nearer ++ farther) = findPackage machine library farther := by
  induction nearer with
  | nil => rfl
  | cons first rest ih =>
    obtain ⟨hfirst, hrest⟩ := List.forall_mem_cons.mp h
    rw [List.cons_append, findPackage_of_passedOver hfirst, ih hrest]

theorem findPackage_of_reaches {machine : Machine} {directories : List Path} {directory : Path}
    (h : Reaches machine directories directory) (library : Path) :
    ∃ farther, findPackage machine library directories =
      findPackage machine library (directory :: farther) := by
  obtain ⟨nearer, farther, rfl, hnearer⟩ := h
  exact ⟨farther, findPackage_append hnearer library _⟩

/-! ## Loading -/

/-- The ways in which loading ends. -/
inductive LoadEnds (node : Path) (machine : Machine) (library : Path) :
    Except LoadError Library → Prop where
  | loaded {directory : Path} {manifest : Manifest}
      (reached : Reaches machine library.properAncestors directory)
      (named : Names machine directory manifest)
      (present : machine.isFile (directory.join entryPoint) = true) :
      LoadEnds node machine library (.ok ⟨node, directory.join entryPoint, manifest.version⟩)
  | entryMissing {directory : Path} {manifest : Manifest}
      (reached : Reaches machine library.properAncestors directory)
      (named : Names machine directory manifest)
      (missing : machine.isFile (directory.join entryPoint) = false) :
      LoadEnds node machine library (.error (.entryMissing (directory.join entryPoint)))
  | unreadable {directory : Path} {cause : Option String}
      (reached : Reaches machine library.properAncestors directory)
      (spoiled : Unreadable machine directory cause) :
      LoadEnds node machine library (.error (.manifest (manifestOf directory) cause))
  | notFound (passed : ∀ directory ∈ library.properAncestors, PassedOver machine directory) :
      LoadEnds node machine library (.error (.packageNotFound library))

section Load

variable {node : Path} {machine : Machine} {library : Path}

theorem load_of_error {error : LoadError}
    (h : findPackage machine library library.properAncestors = .error error) :
    load (some node) machine library = .error error := by
  simp only [load, h]
  rfl

/-- The manifest of the analyzer ends the walk, and then its program is looked for. -/
theorem load_of_names {directory : Path} {manifest : Manifest}
    (hreached : Reaches machine library.properAncestors directory)
    (hnamed : Names machine directory manifest) :
    load (some node) machine library =
      if machine.isFile (directory.join entryPoint) = true then
        .ok ⟨node, directory.join entryPoint, manifest.version⟩
      else .error (.entryMissing (directory.join entryPoint)) := by
  obtain ⟨farther, hwalk⟩ := findPackage_of_reaches hreached library
  rw [findPackage_of_declares hnamed.1, if_pos hnamed.2] at hwalk
  simp only [load, hwalk]
  rfl

theorem LoadEnds.load_eq {answer : Except LoadError Library}
    (h : LoadEnds node machine library answer) : load (some node) machine library = answer := by
  cases h with
  | loaded hreached hnamed hpresent => rw [load_of_names hreached hnamed, if_pos hpresent]
  | entryMissing hreached hnamed hmissing =>
    rw [load_of_names hreached hnamed, if_neg (by simp [hmissing])]
  | unreadable hreached hspoiled =>
    obtain ⟨farther, hwalk⟩ := findPackage_of_reaches hreached library
    rw [findPackage_of_unreadable hspoiled] at hwalk
    exact load_of_error hwalk
  | notFound hpassed =>
    have hwalk := findPackage_append hpassed library []
    rw [List.append_nil] at hwalk
    exact load_of_error hwalk

/-- Every walk has an end. -/
theorem exists_loadEnds (node : Path) (machine : Machine) (library : Path) :
    ∃ answer, LoadEnds node machine library answer := by
  rcases passedOver_or_reaches machine library.properAncestors with
    hpassed | ⟨directory, hreached, hstops⟩
  · exact ⟨_, .notFound hpassed⟩
  · rcases sight_cases machine directory with hpassed | ⟨manifest, hnamed⟩ | ⟨cause, hspoiled⟩
    · exact absurd hpassed hstops
    · cases hentry : machine.isFile (directory.join entryPoint) with
      | true => exact ⟨_, .loaded hreached hnamed hentry⟩
      | false => exact ⟨_, .entryMissing hreached hnamed hentry⟩
    · exact ⟨_, .unreadable hreached hspoiled⟩

theorem load_eq_iff {answer : Except LoadError Library} :
    load (some node) machine library = answer ↔ LoadEnds node machine library answer := by
  constructor
  · rintro rfl
    obtain ⟨answer, hends⟩ := exists_loadEnds node machine library
    rw [hends.load_eq]
    exact hends
  · exact LoadEnds.load_eq

end Load

/-- The nearest manifest that is not passed over decides.  The directories above a
path are its proper beginnings, the longest one first.  The analyzer is loaded
exactly if the walk reaches a directory with the analyzer's manifest and its
program, and then it is this program that runs.  A manifest that cannot be read, or
a package without the program, is reported where the walk reaches it, whatever
stands farther up.  No package is found exactly if all directories are passed
over. -/
theorem load_nearest (node : Path) (machine : Machine) (library : Path) :
    let above := library.properAncestors
    let answer := load (some node) machine library
    above.map Path.components = Path.properBeginnings library.components ∧
    (∀ loaded, answer = .ok loaded ↔
      ∃ directory manifest, Reaches machine above directory ∧ Names machine directory manifest ∧
        machine.isFile (directory.join entryPoint) = true ∧
        loaded = ⟨node, directory.join entryPoint, manifest.version⟩) ∧
    (∀ path cause, answer = .error (.manifest path cause) ↔
      ∃ directory, Reaches machine above directory ∧ Unreadable machine directory cause ∧
        path = manifestOf directory) ∧
    (∀ entry, answer = .error (.entryMissing entry) ↔
      ∃ directory manifest, Reaches machine above directory ∧ Names machine directory manifest ∧
        machine.isFile (directory.join entryPoint) = false ∧
        entry = directory.join entryPoint) ∧
    (∀ start, answer = .error (.packageNotFound start) ↔
      start = library ∧ ∀ directory ∈ above, PassedOver machine directory) ∧
    answer ≠ .error .nodeMissing := by
  intro above answer
  refine ⟨Path.components_properAncestors library, fun loaded => ?_, fun path cause => ?_,
    fun entry => ?_, fun start => ?_, fun hnode => ?_⟩
  · rw [load_eq_iff]
    constructor
    · rintro (⟨hreached, hnamed, hpresent⟩ | _ | _ | _)
      exact ⟨_, _, hreached, hnamed, hpresent, rfl⟩
    · rintro ⟨directory, manifest, hreached, hnamed, hpresent, rfl⟩
      exact .loaded hreached hnamed hpresent
  · rw [load_eq_iff]
    constructor
    · rintro (_ | _ | ⟨hreached, hspoiled⟩ | _)
      exact ⟨_, hreached, hspoiled, rfl⟩
    · rintro ⟨directory, hreached, hspoiled, rfl⟩
      exact .unreadable hreached hspoiled
  · rw [load_eq_iff]
    constructor
    · rintro (_ | ⟨hreached, hnamed, hmissing⟩ | _ | _)
      exact ⟨_, _, hreached, hnamed, hmissing, rfl⟩
    · rintro ⟨directory, manifest, hreached, hnamed, hmissing, rfl⟩
      exact .entryMissing hreached hnamed hmissing
  · rw [load_eq_iff]
    constructor
    · rintro (_ | _ | _ | hpassed)
      exact ⟨rfl, hpassed⟩
    · rintro ⟨rfl, hpassed⟩
      exact .notFound hpassed
  · cases load_eq_iff.mp hnode

/-- A machine with the analyzer in `/p`, a manifest without a name beside its
modules, and a text that is no manifest in the root. -/
def shelf : Machine where
  disk := ⟨[(["package.json"], .file (.text "\x7b")),
    (["p"], .directory),
    (["p", "package.json"], .file (.text "\x7b\"name\": \"eslint\"\x7d")),
    (["p", "bin"], .directory),
    (["p", "bin", "eslint.js"], .file (.text "")),
    (["p", "lib"], .directory),
    (["p", "lib", "package.json"], .file (.text "\x7b\"type\": \"module\"\x7d"))]⟩

/-- A file on the shelf, by the place that its path leads to. -/
theorem file_on_shelf {path : Path} {place : Place} {text : String}
    (hpath : '\x00' ∉ path.text.toList ∧ path.text.utf8ByteSize ≤ Disk.pathLimit ∧
      path.isAbsolute = true)
    (hwalk : ((Text.splitOn '/' path.text.toList).map String.ofList).foldlM shelf.disk.step [] =
      .ok place)
    (hentry : shelf.disk.entryAt? place = some (.file (.text text))) :
    shelf.isFile path = true ∧ shelf.readText path = .ok text := by
  obtain ⟨hnul, hlimit, habsolute⟩ := hpath
  have hempty : path.text ≠ "" := by
    intro h
    simp [Path.isAbsolute, h] at habsolute
  have hlocate : shelf.disk.locate shelf.directory path = .ok place := by
    rw [Disk.locate, if_neg (by simpa using hnul), if_neg (by omega), if_neg hempty,
      if_pos habsolute, hwalk]
  have hfind : shelf.disk.find shelf.directory path = .ok (.file (.text text)) := by
    simp only [Disk.find, hlocate, hentry, bind, Except.bind]
  constructor
  · simp only [Machine.isFile, Disk.isFile, hfind]
  · simp only [Machine.readText, Disk.readText, hfind, bind, Except.bind, Content.text?]

/-- From the modules of the analyzer the manifest without a name is passed over, and
the text in the root is never read.  From a file beside the package it is. -/
theorem load_nearest_shelf :
    load (some ⟨"node"⟩) shelf ⟨"/p/lib/api.js"⟩ =
        .ok ⟨⟨"node"⟩, ⟨"/p/bin/eslint.js"⟩, none⟩ ∧
      load (some ⟨"node"⟩) shelf ⟨"/p.js"⟩ =
        .error (.manifest ⟨"/package.json"⟩ none) := by
  have hnameless : PassedOver shelf ⟨"/p/lib"⟩ := by
    intro hfile
    obtain ⟨-, hread⟩ : _ ∧ shelf.readText (manifestOf ⟨"/p/lib"⟩) = _ :=
      file_on_shelf (by decide +kernel) rfl rfl
    exact ⟨⟨none, none⟩, ⟨hfile, _, hread, by decide +kernel⟩, by simp⟩
  have hnames : Names shelf ⟨"/p"⟩ ⟨some analyzerPackage, none⟩ := by
    obtain ⟨hfile, hread⟩ : shelf.isFile (manifestOf ⟨"/p"⟩) = true ∧ _ :=
      file_on_shelf (by decide +kernel) rfl rfl
    exact ⟨⟨hfile, _, hread, by decide +kernel⟩, rfl⟩
  have hprogram : shelf.isFile (Path.join ⟨"/p"⟩ entryPoint) = true :=
    (file_on_shelf (by decide +kernel) rfl rfl).1
  have hroot : Unreadable shelf ⟨"/"⟩ none := by
    obtain ⟨hfile, hread⟩ : shelf.isFile (manifestOf ⟨"/"⟩) = true ∧ _ :=
      file_on_shelf (by decide +kernel) rfl rfl
    exact .undecoded hfile hread (by decide +kernel)
  obtain ⟨-, hloads, -⟩ := load_nearest ⟨"node"⟩ shelf ⟨"/p/lib/api.js"⟩
  obtain ⟨-, -, hspoils, -⟩ := load_nearest ⟨"node"⟩ shelf ⟨"/p.js"⟩
  constructor
  · refine (hloads _).mpr ⟨⟨"/p"⟩, _, ⟨[⟨"/p/lib"⟩], [⟨"/"⟩], ?_, ?_⟩, hnames, hprogram, ?_⟩
    · decide +kernel
    · simpa using hnameless
    · decide +kernel
  · refine (hspoils _ _).mpr ⟨⟨"/"⟩, ⟨[], [], ?_, ?_⟩, hroot, ?_⟩
    · decide +kernel
    · simp
    · decide +kernel

end LintLayer.Analyzer
