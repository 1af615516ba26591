/-
Module: Intake.Pickup.Settlement
Purpose: Settling the items of a poll in any order, and where each file of the folder then is.
Main exports: Pickup.Fate, Pickup.Fate.place?, Folder.arranged, Pickup.finishAll, Pickup.verdict?,
  Pickup.fateOf
-/
import Intake.Pickup.Session

namespace Intake

/-- The folder with every entry under the name that is given for its own one; entries without one are left out. -/
def Folder.arranged (folder : Folder) (place? : FileName → Option FileName) : Folder :=
  .ofList (folder.entries.filterMap fun entry => (place? entry.1).map fun name => (name, entry.2))

namespace Pickup

/-- What has become of a file. -/
inductive Fate where
  | kept
  | claimed
  | removed
  | setAside
  deriving Repr, DecidableEq

/-- The name under which a file is found, if it is there. -/
def Fate.place? : Fate → FileName → Option FileName
  | .kept, name => some name
  | .claimed, name => some (claimedName name)
  | .removed, _ => none
  | .setAside, name => some (setAsideName name)

/-- Settles items in turn, each as processed or not. -/
def finishAll (p : Pickup) (folder : Folder) (settlements : List (Item × Bool)) : Pickup × Folder :=
  settlements.foldl (fun state settlement => state.1.finish state.2 settlement.1 settlement.2) (p, folder)

/-- How the item of a file was settled the first time. -/
def verdict? (settlements : List (Item × Bool)) (name : FileName) : Option Bool :=
  (settlements.find? fun settlement => nameOf settlement.1 == name).map Prod.snd

/-- What becomes of a file once claims that are still open are given back. -/
def fateOf (settlements : List (Item × Bool)) (name : FileName) : Fate :=
  match verdict? settlements name with
  | none => .kept
  | some true => .removed
  | some false => .setAside

end Pickup

end Intake
