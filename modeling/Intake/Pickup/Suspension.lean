/-
Module: Intake.Pickup.Suspension
Purpose: A poll as the sequence of the points at which it can be suspended or dropped.
Main exports: Pickup.Progress, Pickup.step, Pickup.Progress.items, Pickup.Progress.unnoted?,
  Pickup.Attempt, Pickup.attempt?, Pickup.suspended, Pickup.dropped

Between two of these points other pickups may work on the same folder, and at any of them whoever waits for the
poll may stop waiting.  The rest of the poll then never happens, and the claims that the pickup has noted until
then are all that it can give back.
-/
import Intake.Pickup.Basic

namespace Intake

namespace Pickup

/-- How far a poll has come, and what it does next. -/
inductive Progress where
  | listing
  | renaming (names : List FileName) (items : List Item)
  | reading (name : FileName) (names : List FileName) (items : List Item)
  | noting (name : FileName) (body : Bytes) (names : List FileName) (items : List Item)
  | finished (items : List Item)
  deriving Repr, DecidableEq

/-- One step of a poll. -/
def step (p : Pickup) (folder : Folder) : Progress → Progress × Pickup × Folder
  | .listing => (.renaming (candidates p.limit folder) [], p, folder)
  | .renaming [] items => (.finished items, p, folder)
  | .renaming (name :: names) items =>
    match folder.rename p.path name (claimedName name) with
    | .ok renamed => (.reading name names items, p, renamed)
    | .error _ => (.renaming names items, p, folder)
  | .reading name names items =>
    match folder.read (claimedName name) with
    | .ok body => (.noting name body names items, p, folder)
    | .error _ => (.renaming names items, p, p.restore folder name)
  | .noting name body names items =>
    (.renaming names (items ++ [p.itemOf name body]), p.insertClaim (claimedName name), folder)
  | .finished items => (.finished items, p, folder)

namespace Progress

/-- The items of the files that are claimed and noted. -/
@[simp] def items : Progress → List Item
  | .listing => []
  | .renaming _ items => items
  | .reading _ _ items => items
  | .noting _ _ _ items => items
  | .finished items => items

/-- The file that is renamed already and not noted yet. -/
@[simp] def unnoted? : Progress → Option FileName
  | .reading name _ _ => some name
  | .noting name _ _ _ => some name
  | _ => none

end Progress

/-- What comes of trying to claim a file.  One that is not there any more is no failure. -/
inductive Attempt where
  | claimed (item : Item)
  | vanished
  | failed (cause : FileError)
  deriving Repr, DecidableEq

@[simp] def Attempt.item? : Attempt → Option Item
  | .claimed item => some item
  | _ => none

/-- The attempt that a step of a poll brings to its end, with the name of the file. -/
def attempt? (p : Pickup) (folder : Folder) : Progress → Option (FileName × Attempt)
  | .renaming (name :: _) _ =>
    match folder.rename p.path name (claimedName name) with
    | .ok _ => none
    | .error .notFound => some (name, .vanished)
    | .error cause => some (name, .failed cause)
  | .reading name _ _ =>
    match folder.read (claimedName name) with
    | .ok _ => none
    | .error cause => some (name, .failed cause)
  | .noting name body _ _ => some (name, .claimed (p.itemOf name body))
  | _ => none

/-! ### Polls that are dropped

A poll may be dropped between any two of its steps.  The pickup then knows the claims that were noted up to
there, and gives these back. -/

/-- A poll after a number of its steps. -/
def suspended (p : Pickup) (folder : Folder) : Nat → Progress × Pickup × Folder
  | 0 => (.listing, p, folder)
  | steps + 1 =>
    let (progress, p, folder) := suspended p folder steps
    p.step folder progress

/-- What a poll that is dropped after a number of its steps leaves of a folder, once the pickup has
given back all that it holds. -/
def dropped (p : Pickup) (folder : Folder) (steps : Nat) : Folder :=
  let (_, p, folder) := p.suspended folder steps
  (p.release folder).2

end Pickup

end Intake
