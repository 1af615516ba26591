/-
Module: Intake.Proofs.Files.Bodies
Purpose: When a file of a folder can get a new name, and which contents the folder loses by it.
Main exports: Folder.Plain, Folder.move, Folder.rename_eq_of_fits, Folder.rename_eq_of_not_hasRoom,
  Folder.Plain.rename_eq, Folder.Plain.bodies_move, Folder.refused_of_rename_ok
-/
import Mathlib.Data.List.Lex
import Intake.Pickup.Session
import Intake.Proofs.Files.Routes
import Intake.Proofs.Table

namespace Intake

namespace Folder

open Table

open scoped List

/-- There are files in the folder and nothing else, each under one name. -/
structure Plain (folder : Folder) : Prop where
  sorted : folder.Sorted
  files : ∀ name entry, folder.find? name = some entry → ∃ body, entry = .file body

variable {folder : Folder} {path : FilePath} {name source target : FileName} {body lost : Bytes}

theorem bodyAt?_eq_some_iff : folder.bodyAt? name = some body ↔ folder.find? name = some (.file body) := by
  rw [bodyAt?]
  cases folder.find? name with
  | none => simp
  | some entry => cases entry <;> simp [FileEntry.body?]

theorem Plain.bodyAt?_eq_none_iff (h : folder.Plain) :
    folder.bodyAt? name = none ↔ folder.contains name = false := by
  rw [bodyAt?, contains]
  cases found : folder.find? name with
  | none => simp
  | some entry =>
      obtain ⟨body, rfl⟩ := h.files name entry found
      simp [FileEntry.body?]

/-! ### Single changes

What removing a file and writing one do to the contents of a folder. -/

theorem Plain.erase (h : folder.Plain) (name : FileName) : Plain (folder.erase name) where
  sorted := h.sorted.erase
  files := by
    intro other entry found
    rw [find?_erase] at found
    split at found
    · cases found
    · exact h.files other entry found

theorem Plain.put (h : folder.Plain) (name : FileName) (body : Bytes) :
    Plain (folder.put name (.file body)) where
  sorted := h.sorted.put
  files := by
    intro other entry found
    rw [find?_put] at found
    split at found
    · injection found with same
      exact ⟨body, same.symm⟩
    · exact h.files other entry found

theorem plain_ofFiles (files : List (FileName × Bytes)) : (ofFiles files).Plain := by
  have grown : ∀ folder : Folder, folder.Plain →
      Plain ((files.map fun file => (file.1, FileEntry.file file.2)).foldl
        (fun t p => t.put p.1 p.2) folder) := by
    induction files with
    | nil => exact fun folder h => h
    | cons file rest ih => exact fun folder h => ih _ (h.put file.1 file.2)
  refine grown .empty ⟨sorted_empty, ?_⟩
  intro name entry found
  cases found

/-- Removing a file costs its content. -/
theorem bodies_erase (h : folder.Sorted) (found : folder.find? name = some (.file body)) :
    folder.bodies.Perm (body :: bodies (folder.erase name)) :=
  (h.entries_perm found).filterMap _

/-- Writing a file adds its content and costs the one that had its name. -/
theorem bodies_put (h : folder.Sorted) (name : FileName) (body : Bytes) :
    (bodies (folder.put name (.file body))).Perm (body :: bodies (folder.erase name)) :=
  h.entries_put.filterMap _

/-- Writing a file under a free name costs nothing. -/
theorem bodies_put_of_free (h : folder.Sorted) (free : folder.contains name = false) (body : Bytes) :
    (bodies (folder.put name (.file body))).Perm (body :: folder.bodies) := by
  have missing : folder.find? name = none := by simpa [contains] using free
  have put := bodies_put h name body
  rwa [erase_of_find?_eq_none missing] at put

/-! ### New names

Renaming a file is refused for a path or a name that is too long, and for an entry that cannot be replaced.
Otherwise it moves the file, which costs the content that had the new name. -/

/-- The folder with a file under a new name. -/
def move (folder : Folder) (source target : FileName) (body : Bytes) : Folder :=
  (folder.erase source).put target (.file body)

/-- A file that is moved is under its new name, and the others are where they were. -/
theorem find?_move (other : FileName) :
    (folder.move source target body).find? other =
      if other = target then some (.file body)
      else if other = source then none else folder.find? other := by
  rw [move, find?_put, find?_erase]

/-- A move takes the new name and frees the old one. -/
theorem contains_move (other : FileName) :
    (folder.move source target body).contains other = true ↔
      other = target ∨ other ≠ source ∧ folder.contains other = true := by
  rw [contains, find?_move, contains]
  split
  · next same => simp [same]
  · next differs =>
      split
      · next same =>
          subst same
          simp [differs]
      · next kept => simp [differs, kept]

theorem Plain.move (h : folder.Plain) (source target : FileName) (body : Bytes) :
    (folder.move source target body).Plain := (h.erase source).put target body

/-- Where neither path is too long, there is something to rename or there is not. -/
theorem rename_eq_of_fits (here : (path.push source).isTooLong = false)
    (there : (path.push target).isTooLong = false) :
    folder.rename path source target =
      match folder.find? source with
      | none => .error .notFound
      | some entry =>
        if FileName.lengthLimit < target.length then .error .nameTooLong
        else if source = target then .ok folder
        else (mayReplace entry (folder.find? target)).map fun _ => (folder.erase source).put target entry := by
  rw [rename, here, there]
  rfl

/-- A path that is too long is refused, whatever is in the folder. -/
theorem rename_eq_of_isTooLong (folder : Folder)
    (long : ((path.push source).isTooLong || (path.push target).isTooLong) = true) :
    folder.rename path source target = .error .nameTooLong := by
  rw [rename, if_pos long]

/-- A file can have a new name where there is room for both names and the old entry of that name may be
replaced. -/
theorem rename_eq_of_mayReplace (found : folder.find? source = some (.file body))
    (here : path.hasRoom source = true) (room : path.hasRoom target = true) (differs : source ≠ target)
    (free : mayReplace (.file body) (folder.find? target) = .ok ()) :
    folder.rename path source target = .ok (folder.move source target body) := by
  obtain ⟨-, there⟩ := FilePath.hasRoom_iff.mp here
  obtain ⟨short, whole⟩ := FilePath.hasRoom_iff.mp room
  rw [rename_eq_of_fits (FilePath.isTooLong_eq_false_iff.mpr there) (FilePath.isTooLong_eq_false_iff.mpr whole),
    found]
  simp only [if_neg (Nat.not_lt.mpr short), if_neg differs, free]
  rfl

/-- In a folder of files, a file can have any new name that there is room for. -/
theorem Plain.rename_eq (h : folder.Plain) (found : folder.find? source = some (.file body))
    (here : path.hasRoom source = true) (room : path.hasRoom target = true) (differs : source ≠ target) :
    folder.rename path source target = .ok (folder.move source target body) := by
  apply rename_eq_of_mayReplace found here room differs
  cases there : folder.find? target with
  | none => rfl
  | some entry =>
      obtain ⟨lost, rfl⟩ := h.files target entry there
      rfl

/-- A file can have any name that is free and that there is room for. -/
theorem rename_eq_of_free (found : folder.find? source = some (.file body))
    (here : path.hasRoom source = true) (room : path.hasRoom target = true) (differs : source ≠ target)
    (free : folder.find? target = none) :
    folder.rename path source target = .ok (folder.move source target body) := by
  apply rename_eq_of_mayReplace found here room differs
  rw [free]
  rfl

/-- What was given a new name had a path that was short enough, and so has it now. -/
theorem fits_of_rename {changed : Folder} (renamed : folder.rename path source target = .ok changed) :
    (path.push source).isTooLong = false ∧ (path.push target).isTooLong = false := by
  rw [← Bool.or_eq_false_iff]
  cases long : (path.push source).isTooLong || (path.push target).isTooLong with
  | false => rfl
  | true =>
      rw [rename_eq_of_isTooLong folder long] at renamed
      cases renamed

/-- A file that was given a new name is moved, whatever else there is in the folder, and there was room for the
name. -/
theorem eq_move_of_rename {changed : Folder} (found : folder.find? source = some (.file body))
    (differs : source ≠ target) (renamed : folder.rename path source target = .ok changed) :
    changed = folder.move source target body ∧ path.hasRoom target = true := by
  obtain ⟨here, there⟩ := fits_of_rename renamed
  rw [rename_eq_of_fits here there, found] at renamed
  dsimp only at renamed
  split at renamed
  · cases renamed
  · next short =>
      have room : path.hasRoom target = true :=
        FilePath.hasRoom_iff.mpr ⟨Nat.not_lt.mp short, FilePath.isTooLong_eq_false_iff.mp there⟩
      cases free : mayReplace (.file body) (folder.find? target) with
      | error cause =>
          rw [free] at renamed
          cases renamed
      | ok _ =>
          rw [free] at renamed
          injection renamed with same
          exact ⟨same.symm, room⟩

/-- A file cannot have a name that there is no room for. -/
theorem rename_eq_of_not_hasRoom (found : folder.find? source = some (.file body))
    (full : path.hasRoom target = false) : folder.rename path source target = .error .nameTooLong := by
  cases long : (path.push source).isTooLong || (path.push target).isTooLong with
  | true => exact rename_eq_of_isTooLong folder long
  | false =>
      obtain ⟨here, there⟩ := Bool.or_eq_false_iff.mp long
      have exceeds : FileName.lengthLimit < target.length := by
        by_contra short
        have room := FilePath.hasRoom_iff.mpr ⟨Nat.not_lt.mp short, FilePath.isTooLong_eq_false_iff.mp there⟩
        rw [full] at room
        cases room
      rw [rename_eq_of_fits here there, found]
      exact if_pos exceeds

/-- A new name costs the content of the file that had this name before, and nothing else. -/
theorem Plain.bodies_move (h : folder.Plain) (found : folder.find? source = some (.file body))
    (differs : source ≠ target) :
    folder.bodies.Perm
      (bodies (folder.move source target body) ++ (folder.bodyAt? target).toList) := by
  have moved : (bodies (folder.move source target body)).Perm
      (body :: bodies ((folder.erase source).erase target)) :=
    bodies_put h.sorted.erase target body
  have taken := bodies_erase h.sorted found
  have behind : (folder.erase source).find? target = folder.find? target := by
    rw [find?_erase, if_neg (Ne.symm differs)]
  cases there : folder.bodyAt? target with
  | none =>
      have missing : (folder.erase source).find? target = none := by
        rw [behind]
        simpa [contains] using h.bodyAt?_eq_none_iff.mp there
      rw [erase_of_find?_eq_none missing] at moved
      rw [Option.toList_none, List.append_nil]
      exact taken.trans moved.symm
  | some lost =>
      rw [bodyAt?_eq_some_iff] at there
      have replaced := bodies_erase h.sorted.erase (behind.trans there)
      rw [Option.toList_some]
      calc folder.bodies
        _ ~ body :: bodies (folder.erase source) := taken
        _ ~ body :: lost :: bodies ((folder.erase source).erase target) := replaced.cons body
        _ ~ lost :: body :: bodies ((folder.erase source).erase target) := .swap _ _ _
        _ ~ lost :: bodies (folder.move source target body) := moved.symm.cons lost
        _ ~ bodies (folder.move source target body) ++ [lost] :=
            (List.perm_append_singleton _ _).symm

/-! ### Refusals

A renaming that succeeds or fails tells whether the file is there, and why one path to it may be refused where another
is not. -/

/-- Whether an entry can be replaced has nothing to do with what is not there. -/
theorem mayReplace_ne_notFound (new : FileEntry) (old? : Option FileEntry) :
    mayReplace new old? ≠ .error .notFound := by
  cases old? with
  | none => simp [mayReplace]
  | some old =>
      cases new with
      | folder entries =>
          cases old with
          | folder inner =>
              simp only [mayReplace]
              split
              · simp
              · simp
          | _ => simp [mayReplace]
      | _ => cases old <;> simp [mayReplace]

variable {other : Folder} {way : FilePath} {cause : FileError}

/-- Where neither path is too long, a file is not found only if it is not there. -/
theorem rename_eq_notFound_iff (here : (path.push source).isTooLong = false)
    (there : (path.push target).isTooLong = false) :
    folder.rename path source target = .error .notFound ↔ folder.find? source = none := by
  rw [rename_eq_of_fits here there]
  cases folder.find? source with
  | none => simp
  | some entry =>
      simp only [reduceCtorEq, iff_false]
      split
      · simp
      · split
        · simp
        · have known := mayReplace_ne_notFound entry (folder.find? target)
          cases replaced : mayReplace entry (folder.find? target) with
          | ok _ => simp [Except.map]
          | error cause =>
              rw [replaced] at known
              simpa [Except.map] using known

/-- What is not found is not there. -/
theorem find?_eq_none_of_rename (missing : folder.rename path source target = .error .notFound) :
    folder.find? source = none := by
  cases long : (path.push source).isTooLong || (path.push target).isTooLong with
  | true =>
      rw [rename_eq_of_isTooLong folder long] at missing
      cases missing
  | false =>
      obtain ⟨here, there⟩ := Bool.or_eq_false_iff.mp long
      exact (rename_eq_notFound_iff here there).mp missing

/-- What was given a new name was there. -/
theorem find?_ne_none_of_rename (renamed : folder.rename path source target = .ok other) :
    folder.find? source ≠ none := by
  obtain ⟨here, there⟩ := fits_of_rename renamed
  rw [Ne, ← rename_eq_notFound_iff here there, renamed]
  exact fun impossible => by cases impossible

/-- A file that is given a longer name by one path and refused by another: the other path is too long. -/
theorem refused_of_rename_ok (refused : folder.rename path source target = .error cause)
    (renamed : folder.rename way source target = .ok other) (longer : source.length ≤ target.length) :
    path ≠ way ∧ path.hasRoom target = false ∧ cause = .nameTooLong := by
  cases whole : (path.push target).isTooLong with
  | true =>
      have long : ((path.push source).isTooLong || (path.push target).isTooLong) = true := by
        rw [whole, Bool.or_true]
      rw [rename_eq_of_isTooLong folder long] at refused
      refine ⟨?_, ?_, (Except.error.inj refused).symm⟩
      · rintro rfl
        rw [(fits_of_rename renamed).2] at whole
        cases whole
      · rw [FilePath.hasRoom, whole, Bool.not_true, Bool.and_false]
  | false =>
      obtain ⟨here, there⟩ := fits_of_rename renamed
      rw [rename_eq_of_fits (FilePath.isTooLong_push_of_length_le whole longer) whole,
        ← rename_eq_of_fits here there, renamed] at refused
      cases refused

end Folder

end Intake
