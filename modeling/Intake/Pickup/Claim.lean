/-
Module: Intake.Pickup.Claim
Purpose: Which files are picked up, and the names and the paths that they are given on the way.
Main exports: Pickup.isClaimable, Pickup.claimedName, Pickup.ownName?, Pickup.setAsideName,
  Pickup.parkedName, Pickup.candidates, Pickup.isClaimablePath, Pickup.claimedPath, Pickup.setAsidePath,
  Pickup.unclaimedPath?

An ending is put behind a whole name or a whole path, and is taken off the name at the end of a path.
-/
import Intake.Files.Folder

namespace Intake

namespace Pickup

/-- The ending of a file that is claimed and not settled. -/
def processingEnding : FileName := .ofText ".processing"

/-- The ending of a file whose processing failed. -/
def exceptionEnding : FileName := .ofText ".exception"

/-- The extensions of files that are still being written, and of files that were claimed once. -/
def skippedExtensions : List Bytes :=
  [Utf8.bytesOf "tmp", Utf8.bytesOf "part", Utf8.bytesOf "processing", Utf8.bytesOf "exception"]

/-- Names that start with a dot are hidden, and so are those that are no text or hold a slash, as no file's
name does. -/
def isHidden (name : FileName) : Bool :=
  name.head? == some FileName.dot || name.text?.isNone || name.contains FilePath.slash

def isSkipped (name : FileName) : Bool :=
  match name.extension? with
  | some ext => skippedExtensions.contains ext
  | none => false

def isClaimable (name : FileName) : Bool := !isHidden name && !isSkipped name

/-- The name of a file while it is claimed. -/
def claimedName (name : FileName) : FileName := name ++ processingEnding

/-- The name that a claimed file had before. -/
def ownName? (claimed : FileName) : Option FileName :=
  match claimed.text? with
  | some _ => claimed.withoutEnding? processingEnding
  | none => none

/-- The name under which a file of some name is set aside. -/
def setAsideName (name : FileName) : FileName := name ++ exceptionEnding

/-- The name under which a claimed file is set aside. -/
def parkedName (claimed : FileName) : FileName := setAsideName ((ownName? claimed).getD claimed)

/-- The order of names: byte by byte. -/
def precedes (a b : FileName) : Bool := decide (a ≤ b)

/-- The files of a folder that a poll tries to claim, in the order of their names, at most `limit`. -/
def candidates (limit : Nat) (folder : Folder) : List FileName :=
  let files := folder.entries.filter fun (name, entry) => entry.isFile && isClaimable name
  ((files.map Prod.fst).mergeSort precedes).take limit

/-! ### Whole paths

The same for paths of any bytes, whose name is the last part that leads on. -/

/-- Paths without a name at their end are never picked up. -/
def isClaimablePath (path : FilePath) : Bool := (FilePath.name? path).any isClaimable

/-- The path of a file while it is claimed. -/
def claimedPath (path : FilePath) : FilePath := path ++ processingEnding

/-- The path under which a file is set aside. -/
def setAsidePath (path : FilePath) : FilePath := path ++ exceptionEnding

/-- The path that a claimed file had before. -/
def unclaimedPath? (path : FilePath) : Option FilePath :=
  ((FilePath.name? path).bind ownName?).map (FilePath.withName path)

end Pickup

end Intake
