/-
Module: Intake.Pickup.Session
Purpose: A directory in which files arrive while one pickup works on it.
Main exports: Folder.bodies, Pickup.claimableFiles, Pickup.leavesRoom, Pickup.nameOf, Pickup.pollTimes,
  Pickup.Happening, Pickup.Session, Pickup.Session.opening, Pickup.Session.after, Pickup.Session.close

Files arrive under names that are free and that a poll claims.  The pickup polls once all items of the
poll before are finished.  What became of files and items is written down as it happens.
-/
import Intake.Pickup.Basic

namespace Intake

/-- The content of a file. -/
def FileEntry.body? : FileEntry → Option Bytes
  | .file body => some body
  | _ => none

namespace Folder

/-- The folder that holds some files and nothing else; of several files of one name the last stays. -/
def ofFiles (files : List (FileName × Bytes)) : Folder :=
  Table.ofList (files.map fun file => (file.1, .file file.2))

/-- The content of a file in a folder. -/
def bodyAt? (folder : Folder) (name : FileName) : Option Bytes :=
  (folder.find? name).bind FileEntry.body?

/-- The contents of all files in a folder. -/
def bodies (folder : Folder) : List Bytes := folder.entries.filterMap fun p => p.2.body?

end Folder

namespace Pickup

/-- The name of the file that an item was made from. -/
def nameOf (item : Item) : FileName := .ofText ((item.properties.find? nameProperty).getD "")

/-! ### Polls in turn

Only files that leave room for the ending of a claim can be claimed; the others are passed over by every poll.
-/

/-- The files of a folder that a poll without a limit tries to claim, with their contents. -/
def claimableFiles (folder : Folder) : List (FileName × Bytes) :=
  folder.entries.filterMap fun (name, entry) =>
    if isClaimable name then entry.body?.map fun body => (name, body) else none

/-- Whether the name of a file, and its path in the directory, leave room for the ending that they have while it is
claimed. -/
def leavesRoom (p : Pickup) (file : FileName × Bytes) : Bool := p.path.hasRoom (claimedName file.1)

/-- The items of several polls in turn, and the pickup and the folder after them. -/
def pollTimes (p : Pickup) (folder : Folder) : Nat → List Item × Pickup × Folder
  | 0 => ([], p, folder)
  | times + 1 =>
    let (items, p, folder) := pollTimes p folder times
    let (more, p, folder) := p.poll folder
    (items ++ more, p, folder)

/-! ### Sessions

Files may arrive at any time, and items may be finished in any order.  What does not fit the state of the session
leaves it as it is. -/

/-- Something that happens at the directory. -/
inductive Happening where
  | arrive (name : FileName) (body : Bytes)
  | poll
  | finish (item : Item) (processed : Bool)
  deriving Repr, DecidableEq

/-- The pickup, the directory, the items that were returned and are not finished, the contents that
arrived, and the items that were finished, processed or not. -/
structure Session where
  pickup : Pickup
  folder : Folder
  pending : List Item
  arrived : List Bytes
  processed : List Item
  setAside : List Item

namespace Session

/-- A new pickup at a directory with some files. -/
def opening (key directory : String) (limit : Nat) (files : List (FileName × Bytes)) : Session where
  pickup := (create key directory).withLimit limit
  folder := .ofFiles files
  pending := []
  arrived := []
  processed := []
  setAside := []

/-- A file arrives, unless no poll would claim it or there is something of its name. -/
def arrive (s : Session) (name : FileName) (body : Bytes) : Session :=
  if isClaimable name && !s.folder.contains name then
    { s with folder := s.folder.put name (.file body), arrived := s.arrived ++ [body] }
  else s

/-- The pickup polls, unless an item is not finished. -/
def poll (s : Session) : Session :=
  if s.pending = [] then
    let (items, pickup, folder) := s.pickup.poll s.folder
    { s with pickup, folder, pending := items }
  else s

/-- An item is finished, if it is one of those returned and not finished. -/
def finish (s : Session) (item : Item) (processed : Bool) : Session :=
  if item ∈ s.pending then
    let (pickup, folder) := s.pickup.finish s.folder item processed
    let settled := { s with pickup, folder, pending := s.pending.erase item }
    if processed then { settled with processed := s.processed ++ [item] }
    else { settled with setAside := s.setAside ++ [item] }
  else s

def advance (s : Session) : Happening → Session
  | .arrive name body => s.arrive name body
  | .poll => s.poll
  | .finish item processed => s.finish item processed

def after (s : Session) (happenings : List Happening) : Session := happenings.foldl advance s

/-- The directory once the pickup has given back what it still holds. -/
def close (s : Session) : Folder := (s.pickup.release s.folder).2

/-- All items that the pickup returned. -/
def returned (s : Session) : List Item := s.processed ++ s.setAside ++ s.pending

end Session

end Pickup

end Intake
