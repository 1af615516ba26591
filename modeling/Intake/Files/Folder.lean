/-
Module: Intake.Files.Folder
Purpose: Folders of files, and the operations that move and remove files in them.
Main exports: FileEntry, Folder, FileError, Folder.rename, Folder.remove, Folder.read,
  Folder.folderAt, Folder.putAt, Folder.eraseAt, Folder.listing

Renaming follows the rules of POSIX: what stands under the new name is replaced without a word, unless
it is a folder.  A path that is too long is refused before anything is looked up; a name that is too long, only
once there is something to rename.
-/
import Intake.Files.Path
import Intake.Table

namespace Intake

/-- What a name in a folder stands for. -/
inductive FileEntry where
  | file (body : Bytes)
  | link (target : Bytes)
  | folder (inner : Table FileEntry FileName)
  deriving Inhabited

def FileEntry.isFile : FileEntry → Bool
  | .file _ => true
  | _ => false

def FileEntry.isFolder : FileEntry → Bool
  | .folder _ => true
  | _ => false

/-- A folder: its entries by name. -/
abbrev Folder := Table FileEntry FileName

/-- Why an operation on files failed. -/
inductive FileError where
  | notFound
  | notDirectory
  | isDirectory
  | nameTooLong
  | notEmpty
  | tooManyLinks
  | accessDenied
  deriving Repr, DecidableEq

def FileError.message : FileError → String
  | .notFound => "No such file or directory (os error 2)"
  | .notDirectory => "Not a directory (os error 20)"
  | .isDirectory => "Is a directory (os error 21)"
  | .nameTooLong => "File name too long (os error 36)"
  | .notEmpty => "Directory not empty (os error 39)"
  | .tooManyLinks => "Too many levels of symbolic links (os error 40)"
  | .accessDenied => "Permission denied (os error 13)"

namespace Folder

/-- Whether an entry may take the place of another: folders replace empty folders only, and nothing
else replaces a folder. -/
def mayReplace (new : FileEntry) : Option FileEntry → Except FileError Unit
  | none => .ok ()
  | some old =>
    match new, old with
    | .folder _, .folder inner => if inner.isEmpty then .ok () else .error .notEmpty
    | .folder _, _ => .error .notDirectory
    | _, .folder _ => .error .isDirectory
    | _, _ => .ok ()

/-- Gives an entry of the folder at a path a new name; an entry that has this name already is replaced. -/
def rename (folder : Folder) (path : FilePath) (source target : FileName) : Except FileError Folder :=
  if (path.push source).isTooLong || (path.push target).isTooLong then .error .nameTooLong
  else
    match folder.find? source with
    | none => .error .notFound
    | some entry =>
      if FileName.lengthLimit < target.length then .error .nameTooLong
      else if source = target then .ok folder
      else (mayReplace entry (folder.find? target)).map fun _ => (folder.erase source).put target entry

/-- Removes a file. -/
def remove (folder : Folder) (name : FileName) : Except FileError Folder :=
  match folder.find? name with
  | none => .error .notFound
  | some (.folder _) => .error .isDirectory
  | some _ => .ok (folder.erase name)

/-- The content of a file; links are not followed. -/
def read (folder : Folder) (name : FileName) : Except FileError Bytes :=
  match folder.find? name with
  | some (.file body) => .ok body
  | some (.folder _) => .error .isDirectory
  | _ => .error .notFound

/-! ### Paths -/

/-- The folder at a path below another. -/
def folderAt (folder : Folder) : List FileName → Except FileError Folder
  | [] => .ok folder
  | name :: rest =>
    match folder.find? name with
    | some (.folder inner) => folderAt inner rest
    | some _ => .error .notDirectory
    | none => .error .notFound

/-- The folder that an entry is, or a new one. -/
def innerOf : Option FileEntry → Folder
  | some (.folder inner) => inner
  | _ => .empty

/-- Puts an entry at a path; folders on the way are created. -/
def putAt (folder : Folder) : List FileName → FileEntry → Folder
  | [], _ => folder
  | [name], entry => folder.put name entry
  | name :: rest, entry =>
    folder.put name (.folder (putAt (innerOf (folder.find? name)) rest entry))

/-- Makes sure that there is a folder at a path. -/
def makeFolderAt (folder : Folder) (path : List FileName) : Folder :=
  match folder.folderAt path with
  | .ok _ => folder
  | .error _ => folder.putAt path (.folder .empty)

/-- Removes what is at a path, with all below it. -/
def eraseAt (folder : Folder) : List FileName → Folder
  | [] => folder
  | [name] => folder.erase name
  | name :: rest =>
    match folder.find? name with
    | some (.folder inner) => folder.put name (.folder (eraseAt inner rest))
    | _ => folder

/-- The names on the way down a path; a single dot names the folder that it stands in. -/
def pathOf (path : FilePath) : List FileName := (FilePath.parts path).filter FilePath.leadsOn

mutual

/-- An entry and everything below it, with the paths. -/
def outlineEntry (path : List FileName) : FileEntry → List (List FileName × FileEntry)
  | .folder ⟨entries⟩ => (path, .folder ⟨entries⟩) :: outlineEntries path entries
  | entry => [(path, entry)]

def outlineEntries (path : List FileName) :
    List (FileName × FileEntry) → List (List FileName × FileEntry)
  | [] => []
  | (name, entry) :: rest => outlineEntry (path ++ [name]) entry ++ outlineEntries path rest

end

/-- Everything below a folder, with the paths. -/
def outline (folder : Folder) : List (List FileName × FileEntry) := outlineEntries [] folder.entries

/-- A path in a listing: a slash marks folders, an at sign links. -/
def listedPath (path : List FileName) (entry : FileEntry) : String :=
  let mark :=
    match entry with
    | .file _ => ""
    | .link _ => "@"
    | .folder _ => "/"
  "/".intercalate (path.map FileName.shown) ++ mark

/-- Everything below a folder in the order of the listed paths, with the content of files. -/
def listing (folder : Folder) : List (String × Option Bytes) :=
  let listed := folder.outline.map fun (path, entry) =>
    match entry with
    | .file body => (listedPath path entry, some body)
    | _ => (listedPath path entry, none)
  listed.mergeSort fun a b => decide (a.1 ≤ b.1)

end Folder

end Intake
