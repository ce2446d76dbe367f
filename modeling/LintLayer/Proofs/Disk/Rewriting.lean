import LintLayer.Disk
import LintLayer.Proofs.Path.Map

/-!
# Disks with other texts

A write puts a text where a file with a text was.  `Rewritten` says that two
disks differ in nothing else, in any number of places.  On such disks every
path leads to the same place, the same paths are files, and the same files can
be read, so what stopped a reader before a write stops it after the write.
-/

namespace LintLayer.Disk

/-! ## One entry -/

theorem entryAt?_put (disk : Disk) {place : Place} (hplace : place ≠ []) (entry : Entry)
    (other : Place) :
    (disk.put place entry).entryAt? other =
      if other = place then some entry else disk.entryAt? other := by
  by_cases hroot : other = []
  · have hother : other ≠ place := fun h => hplace (h ▸ hroot)
    rw [if_neg hother, entryAt?, entryAt?, if_pos hroot, if_pos hroot]
  · rw [entryAt?, entryAt?, if_neg hroot, if_neg hroot, put, List.lookup_cons,
      Path.Map.lookup_filter_ne]
    by_cases hother : other = place
    · have heq : (other == place) = true := by simpa using hother
      rw [heq, if_pos hother, if_pos hother]
    · have hne : (other == place) = false := by simpa using hother
      rw [hne, if_neg hother, if_neg hother]

/-- The root is a directory, so a file stands elsewhere. -/
theorem ne_root_of_file {disk : Disk} {place : Place} {content : Content}
    (h : disk.entryAt? place = some (.file content)) : place ≠ [] := by
  rintro rfl
  simp [entryAt?] at h

/-! ## Reading and writing -/

/-- A text that is read is the text of the file at the end of the path. -/
theorem readText_eq_ok_iff {disk : Disk} {start : Place} {path : Path} {text : String} :
    disk.readText start path = .ok text ↔
      ∃ place content, disk.locate start path = .ok place ∧
        disk.entryAt? place = some (.file content) ∧ content.text? = some text := by
  constructor
  · intro h
    rcases hlocate : disk.locate start path with fault | place
    · simp [readText, find, hlocate, bind, Except.bind] at h
    rcases hentry : disk.entryAt? place with _ | (_ | content | name)
    case some.file =>
      rcases htext : content.text? with _ | held
      · simp [readText, find, hlocate, hentry, htext, bind, Except.bind] at h
      · simp [readText, find, hlocate, hentry, htext, bind, Except.bind] at h
        exact ⟨place, content, rfl, hentry, htext.trans (congrArg some h)⟩
    all_goals simp [readText, find, hlocate, hentry, bind, Except.bind] at h
  · rintro ⟨place, content, hlocate, hentry, htext⟩
    simp [readText, find, hlocate, hentry, htext, bind, Except.bind]

/-- A file that can be read can be written. -/
theorem writeText_of_file {disk : Disk} {start place : Place} {path : Path} {content : Content}
    (hlocate : disk.locate start path = .ok place)
    (hentry : disk.entryAt? place = some (.file content)) (text : String) :
    disk.writeText start path text = .ok (disk.put place (.file (.text text))) := by
  simp [writeText, hlocate, hentry, bind, Except.bind]

/-! ## Many writes -/

/-- The disks differ in the texts of files only. -/
def Rewritten (before after : Disk) : Prop :=
  ∀ place, after.entryAt? place = before.entryAt? place ∨
    ∃ content text, before.entryAt? place = some (.file content) ∧ content.text?.isSome ∧
      after.entryAt? place = some (.file (.text text))

namespace Rewritten

theorem refl (disk : Disk) : Rewritten disk disk :=
  fun _ => Or.inl rfl

theorem trans {first second third : Disk} (hfirst : Rewritten first second)
    (hsecond : Rewritten second third) : Rewritten first third := by
  intro place
  rcases hfirst place with hsame | ⟨content, text, hbefore, hread, hafter⟩
  · rw [← hsame]
    exact hsecond place
  · rcases hsecond place with hsame | ⟨_, later, _, _, hlater⟩
    · exact Or.inr ⟨content, text, hbefore, hread, hsame.trans hafter⟩
    · exact Or.inr ⟨content, later, hbefore, hread, hlater⟩

theorem put {disk : Disk} {place : Place} {content : Content}
    (hentry : disk.entryAt? place = some (.file content)) (hread : content.text?.isSome)
    (text : String) : Rewritten disk (disk.put place (.file (.text text))) := by
  intro other
  rw [entryAt?_put disk (ne_root_of_file hentry)]
  by_cases hother : other = place
  · rw [if_pos hother, hother]
    exact Or.inr ⟨content, text, hentry, hread, rfl⟩
  · rw [if_neg hother]
    exact Or.inl rfl

variable {before after : Disk} (h : Rewritten before after)

include h

theorem isSome_entryAt? (place : Place) :
    (after.entryAt? place).isSome = (before.entryAt? place).isSome := by
  rcases h place with hsame | ⟨_, _, hbefore, _, hafter⟩
  · rw [hsame]
  · rw [hbefore, hafter, Option.isSome_some, Option.isSome_some]

theorem step_eq : after.step = before.step := by
  funext place segment
  unfold step
  simp only [h.isSome_entryAt?]
  rcases h place with hsame | ⟨_, _, hbefore, _, hafter⟩
  · rw [hsame]
  · rw [hbefore, hafter]

/-- A path leads to the same place. -/
theorem locate_eq (start : Place) (path : Path) :
    after.locate start path = before.locate start path := by
  rw [locate, locate, h.step_eq]

/-- The same paths are files. -/
theorem isFile_eq (start : Place) (path : Path) :
    after.isFile start path = before.isFile start path := by
  unfold isFile find
  rw [h.locate_eq]
  rcases before.locate start path with fault | place
  · rfl
  · simp only [bind, Except.bind]
    rcases h place with hsame | ⟨_, _, hbefore, _, hafter⟩
    · rw [hsame]
    · rw [hbefore, hafter]

/-- The same paths cannot be read, for the same reasons. -/
theorem readText_eq_error_iff (start : Place) (path : Path) (fault : Fault) :
    after.readText start path = .error fault ↔ before.readText start path = .error fault := by
  unfold readText find
  rw [h.locate_eq]
  rcases before.locate start path with fault | place
  · rfl
  · simp only [bind, Except.bind]
    rcases h place with hsame | ⟨content, text, hbefore, hread, hafter⟩
    · rw [hsame]
    · obtain ⟨held, hheld⟩ := Option.isSome_iff_exists.mp hread
      simp [hbefore, hafter, hheld, Content.text?.eq_1]

end Rewritten

end LintLayer.Disk
