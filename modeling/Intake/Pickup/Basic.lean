/-
Module: Intake.Pickup.Basic
Purpose: Picks files up from a directory: claiming, settling and returning them.
Main exports: Pickup, Pickup.filePath, Pickup.itemOf, Pickup.poll, Pickup.finish, Pickup.release

A file is claimed by renaming it.  A processed file is removed, a file that failed is set aside under
another name, and claims that are still open when the pickup ends are undone.
-/
import Intake.Message.Item
import Intake.Pickup.Claim
import Intake.Receiver.Basic

namespace Intake

/-- Polls one directory.  `claimed` holds the names of the files claimed and not settled. -/
structure Pickup where
  key : String
  directory : String
  limit : Nat
  claimed : List FileName
  deriving Repr, DecidableEq

namespace Pickup

/-- How many files a poll takes at most unless told otherwise. -/
def standardLimit : Nat := 32

def create (key directory : String) : Pickup := ⟨key, directory, standardLimit, []⟩

/-- A poll always takes at least one file. -/
def withLimit (p : Pickup) (limit : Nat) : Pickup := { p with limit := max limit 1 }

/-- The path of the directory. -/
def path (p : Pickup) : FilePath := Utf8.bytesOf p.directory

/-- The path of a file in the directory. -/
def filePath (p : Pickup) (name : FileName) : FilePath := FilePath.push p.path name

/-- The path of a file as text, with replacement characters where it is none. -/
def pathOf (p : Pickup) (name : FileName) : String := Utf8.decodeLossy (p.filePath name)

/-- The property with the name of a file. -/
def nameProperty : String := "file_name"

/-- The property with the path of a file while it is claimed. -/
def claimedProperty : String := "claimed_path"

/-- The item of a file. -/
def itemOf (p : Pickup) (name : FileName) (body : Bytes) : Item where
  source := p.key
  messageId := some (Utf8.decodeLossy name.stem)
  body
  properties :=
    (Table.empty.put nameProperty name.shown).put claimedProperty (p.pathOf (claimedName name))

/-- The pickup with one more open claim. -/
def insertClaim (p : Pickup) (claimed : FileName) : Pickup :=
  if claimed ∈ p.claimed then p else { p with claimed := p.claimed ++ [claimed] }

/-- The folder with a claimed file that cannot be read back under its own name, where that works. -/
def restore (p : Pickup) (folder : Folder) (name : FileName) : Folder :=
  match folder.rename p.path (claimedName name) name with
  | .ok restored => restored
  | .error _ => folder

/-- Claims one file: it is renamed, read, and noted.  Nothing is claimed if another pickup came first or
the file cannot take its new name. -/
def claim (p : Pickup) (folder : Folder) (name : FileName) : Option Item × Pickup × Folder :=
  match folder.rename p.path name (claimedName name) with
  | .error _ => (none, p, folder)
  | .ok renamed =>
    match renamed.read (claimedName name) with
    | .error _ => (none, p, p.restore renamed name)
    | .ok body => (some (p.itemOf name body), p.insertClaim (claimedName name), renamed)

/-- Claims files in turn; those that cannot be claimed are passed over. -/
def claimAll (p : Pickup) (folder : Folder) : List FileName → List Item × Pickup × Folder
  | [] => ([], p, folder)
  | name :: rest =>
    let (item, p, folder) := p.claim folder name
    let (items, p, folder) := claimAll p folder rest
    (item.toList ++ items, p, folder)

/-- One poll of a directory that is there. -/
def poll (p : Pickup) (folder : Folder) : List Item × Pickup × Folder :=
  p.claimAll folder (candidates p.limit folder)

/-- The path that an item says its file was claimed under. -/
def itemPath? (item : Item) : Option FilePath := (item.properties.find? claimedProperty).map Utf8.bytesOf

/-- The claim that an item came from, if it is open.  Paths are compared by where they lead. -/
def openClaim? (p : Pickup) (item : Item) : Option FileName :=
  match itemPath? item with
  | none => none
  | some path => p.claimed.find? fun claimed => FilePath.route (p.filePath claimed) == FilePath.route path

/-- Whether an item spells its path in a way in which the claimed entry cannot be renamed or removed. -/
def isRefused (folder : Folder) (item : Item) (claimed : FileName) : Bool :=
  (itemPath? item).any fun path =>
    path.isTooLong || !path.admits ((folder.find? claimed).any FileEntry.isFolder)

/-- The folder after an operation that may fail; a failure is logged and changes nothing. -/
def orUnchanged (folder : Folder) : Except FileError Folder → Folder
  | .ok changed => changed
  | .error _ => folder

/-- Settles an item.  An item whose claim is not open has no effect. -/
def finish (p : Pickup) (folder : Folder) (item : Item) (processed : Bool) : Pickup × Folder :=
  match p.openClaim? item with
  | none => (p, folder)
  | some claimed =>
    let settled := { p with claimed := p.claimed.filter (· != claimed) }
    if isRefused folder item claimed then (settled, folder)
    else if processed then (settled, orUnchanged folder (folder.remove claimed))
    else (settled, orUnchanged folder (folder.rename p.path claimed (parkedName claimed)))

/-- A claimed file back under its own name. -/
def releaseOne (p : Pickup) (folder : Folder) (claimed : FileName) : Folder :=
  match ownName? claimed with
  | none => folder
  | some name => orUnchanged folder (folder.rename p.path claimed name)

/-- Undoes all open claims. -/
def release (p : Pickup) (folder : Folder) : Pickup × Folder :=
  ({ p with claimed := [] }, p.claimed.foldl p.releaseOne folder)

/-- One poll of a directory that may be missing. -/
def pollDirectory (p : Pickup) (directory : Except FileError Folder) :
    Except ReceiverError (List Item) × Pickup × Except FileError Folder :=
  match directory with
  | .error e => (.error (.io e.message), p, directory)
  | .ok folder =>
    let (items, p, folder) := p.poll folder
    (.ok items, p, .ok folder)

end Pickup

end Intake
