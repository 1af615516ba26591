/-
Module: Intake.Receiver.Basic
Purpose: What receivers have in common: their errors, what their polls come to, and who takes their items.
Main exports: ReceiverError, ReceiverError.message, PollEnd, PollEnd.event?, PollEnd.scripted, ItemHandler,
  ItemHandler.accepting, ItemHandler.refusing
-/
import Intake.Message.Item
import Intake.Observe.Metrics
import Intake.Schedule.Scheduler

namespace Intake

/-- Why a receiver refused a setting, or could not start or poll. -/
inductive ReceiverError where
  | invalidSetting (key reason : String)
  | alreadyRunning
  | pollFailed (reason : String)
  | schedule (cause : Schedule.Error)
  | io (reason : String)
  deriving Repr, DecidableEq

def ReceiverError.message : ReceiverError → String
  | .invalidSetting key reason => "Invalid receiver setting '" ++ key ++ "': " ++ reason
  | .alreadyRunning => "Receiver is already running"
  | .pollFailed reason => "Poll failed: " ++ reason
  | .schedule cause => "Scheduler error: " ++ cause.message
  | .io reason => "I/O error: " ++ reason

/-! ### Polls

What a poll of a batch source can come to. -/

/-- How a poll ends: with the items that were found, with an error, or not at all. -/
inductive PollEnd (ι : Type u) where
  | found (items : List ι)
  | failed (cause : ReceiverError)
  | crashed
  deriving Repr, DecidableEq

namespace PollEnd

variable {ι : Type u}

/-- The event by which a poll is counted; one that crashed is not. -/
def event? : PollEnd ι → Option Metrics.Event
  | .found [] => some .pollEmpty
  | .found (_ :: _) => some .pollProductive
  | .failed _ => some .pollFailed
  | .crashed => none

/-- The polls of a source that fails a number of times, then finds given batches, and then nothing. -/
def scripted (failures : Nat) (cause : ReceiverError) (batches : List (List ι)) (n : Nat) :
    PollEnd ι :=
  if n < failures then .failed cause else .found ((batches[n - failures]?).getD [])

end PollEnd

/-! ### Handlers

Receivers hand their items to a function, so that nothing here depends on the agents behind it. -/

/-- Whoever takes the items of a receiver: an item is processed, or a fault comes back. -/
abbrev ItemHandler := Item → Except Fault Unit

namespace ItemHandler

/-- Takes every item. -/
def accepting : ItemHandler := fun _ => .ok ()

/-- Reports the same fault for every item. -/
def refusing (fault : Fault) : ItemHandler := fun _ => .error fault

/-- The fault of a handler that is set up to fail. -/
def configuredFault : Fault := .stepFailed "recording_handler" "configured to fail"

end ItemHandler

end Intake
