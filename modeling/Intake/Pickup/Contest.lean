/-
Module: Intake.Pickup.Contest
Purpose: Several pickups that poll one folder at the same time.
Main exports: Pickup.Contestant, Pickup.Contestant.advance, Pickup.Contestant.names, Pickup.Contest,
  Pickup.Contest.advance, Pickup.Contest.run

Which pickup takes the next step is not decided here: an interleaving is any list of places.
-/
import Intake.Pickup.Session
import Intake.Pickup.Suspension

namespace Intake

namespace Pickup

/-- A pickup, how far its present poll is, the items that its polls have returned, and what came of all
its attempts at files so far. -/
structure Contestant where
  pickup : Pickup
  progress : Progress
  returned : List Item
  attempts : List (FileName × Attempt)
  deriving Repr, DecidableEq

namespace Contestant

/-- A pickup before its first poll. -/
def enter (p : Pickup) : Contestant := ⟨p, .listing, [], []⟩

/-- One step; behind the end of a poll the next poll begins. -/
def advance (c : Contestant) (folder : Folder) : Contestant × Folder :=
  match c.progress with
  | .finished items => ({ c with progress := .listing, returned := c.returned ++ items }, folder)
  | progress =>
    let (next, pickup, after) := c.pickup.step folder progress
    let attempts := c.attempts ++ (c.pickup.attempt? folder progress).toList
    ({ c with pickup, progress := next, attempts }, after)

/-- All items that a pickup has claimed, those of its present poll included. -/
def items (c : Contestant) : List Item := c.returned ++ c.progress.items

/-- The names of the files that a pickup has taken, that of the one that it is at included. -/
def names (c : Contestant) : List FileName := c.items.map nameOf ++ c.progress.unnoted?.toList

end Contestant

/-- A folder and the pickups that work on it. -/
structure Contest where
  folder : Folder
  contestants : List Contestant

namespace Contest

/-- Pickups before their first steps. -/
def start (folder : Folder) (pickups : List Pickup) : Contest :=
  ⟨folder, pickups.map Contestant.enter⟩

/-- One step of the pickup at a place. -/
def advance (c : Contest) (place : Nat) : Contest :=
  match c.contestants[place]? with
  | none => c
  | some contestant =>
    let (next, folder) := contestant.advance c.folder
    ⟨folder, c.contestants.set place next⟩

/-- The names of the files that anybody has taken. -/
def names (c : Contest) : List FileName := c.contestants.flatMap Contestant.names

/-- The contest after an interleaving. -/
def run (c : Contest) (places : List Nat) : Contest := places.foldl advance c

end Contest

end Pickup

end Intake
