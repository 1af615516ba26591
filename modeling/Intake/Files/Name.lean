/-
Module: Intake.Files.Name
Purpose: File names as bytes, with their stem and their extension.
Main exports: FileName, FileName.stem, FileName.extension?, FileName.shown

A name is any sequence of bytes; it need not be text.  The extension is what follows the last dot, but a
dot that starts the name separates nothing.
-/
import Intake.Text.Utf8

namespace Intake

/-- The name of a file inside a folder. -/
abbrev FileName := Bytes

namespace FileName

def dot : UInt8 := 0x2E

def ofText (s : String) : FileName := Utf8.bytesOf s

/-- The parts before and behind the last dot. -/
def splitLastDot? : FileName → Option (Bytes × Bytes)
  | [] => none
  | b :: rest =>
    match splitLastDot? rest with
    | some (before, behind) => some (b :: before, behind)
    | none => if b = dot then some ([], rest) else none

/-- The name without its extension. -/
def stem (name : FileName) : Bytes :=
  match splitLastDot? name with
  | some (b :: before, _) => b :: before
  | _ => name

def extension? (name : FileName) : Option Bytes :=
  match splitLastDot? name with
  | some (_ :: _, behind) => some behind
  | _ => none

/-- What stays of a name without an ending. -/
def withoutEnding? (name ending : FileName) : Option FileName :=
  if ending.isSuffixOf name then some (name.take (name.length - ending.length)) else none

/-- The name as text, with replacement characters where it is none. -/
def shown (name : FileName) : String := Utf8.decodeLossy name

/-- The greatest number of bytes that a name may have. -/
def lengthLimit : Nat := 255

example : stem (ofText "a.tar.gz") = ofText "a.tar" ∧ stem (ofText ".tmp") = ofText ".tmp" := by
  decide

example : extension? (ofText "trailing.") = some [] ∧ extension? (ofText "tmp") = none := by
  decide

end FileName

end Intake
