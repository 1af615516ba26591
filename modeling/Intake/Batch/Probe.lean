/-
Module: Intake.Batch.Probe
Purpose: Sources of numbered items of which some fail and some crash, for trying out dispatchers.
Main exports: Batch.Numbered, Batch.Numbered.source, Batch.Numbered.eventText?
-/
import Intake.Batch.Clock

namespace Intake

namespace Batch

/-- Numbered items.  Those in `crashing` crash, others in `failing` fail, and an item takes its number
times `millisPerUnit`. -/
structure Numbered where
  batches : List (List Nat)
  failingPolls : Nat
  failing : List Nat
  crashing : List Nat
  millisPerUnit : Nat
  deriving Repr, DecidableEq

namespace Numbered

def itemKey (n : Nat) : String := "item-" ++ toString n

def taskEnd (p : Numbered) (n : Nat) : TaskEnd :=
  if n ∈ p.crashing then .crashed ("item " ++ toString n ++ " crashed")
  else if n ∈ p.failing then .faulted (.stepFailed "numbered_item" ("item " ++ toString n ++ " failed"))
  else .completed

def source (p : Numbered) : Source Nat where
  poll := .scripted p.failingPolls (.pollFailed "batch source unavailable") p.batches
  key := itemKey
  handle _ _ := p.taskEnd

def timing (p : Numbered) (interval cancelAt : Nat) : Timing Nat :=
  ⟨fun n => n * p.millisPerUnit, interval, cancelAt⟩

/-- The most polls that do not end in a sleep, or that fail. -/
def pollLimit (p : Numbered) : Nat := p.batches.length + p.failingPolls

/-- An event in the log of a source.  A task that crashes leaves no trace of its end. -/
def eventText? : Event Nat → Option String
  | .polled _ (.found items) => some ("poll:" ++ toString items.length)
  | .polled _ _ => some "poll:error"
  | .task _ _ (.started n) => some ("start:" ++ toString n)
  | .task _ _ (.ended n .completed) => some ("done:" ++ toString n)
  | .task _ _ (.ended n (.faulted _)) => some ("fault:" ++ toString n)
  | .released => some "release"
  | _ => none

end Numbered

/-- The items that were processed, in the order in which their tasks ended. -/
def completedItems (trace : List (Event ι)) : List ι :=
  trace.filterMap fun
    | .task _ _ (.ended item .completed) => some item
    | _ => none

/-- The keys to which faults were routed. -/
def faultedKeys (trace : List (Event ι)) : List String :=
  trace.filterMap fun
    | .task _ _ (.routing key _) => some key
    | _ => none

def Event.isRelease : Event ι → Bool
  | .released => true
  | _ => false

def Event.isPoll : Event ι → Bool
  | .polled .. => true
  | _ => false

end Batch

end Intake
