/-
Module: Intake.Receiver.Lifecycle
Purpose: The background task of a receiver between its start and its end.
Main exports: Lifecycle, Lifecycle.start, Lifecycle.stop, Lifecycle.cancel, Lifecycle.isRunning
-/
import Intake.Receiver.Basic

namespace Intake

/-- The background task of a receiver: none, one that runs, or one that ended because the signal it was
started under was given. -/
inductive Lifecycle where
  | idle
  | running
  | ended
  deriving Repr, DecidableEq

namespace Lifecycle

def isRunning : Lifecycle → Bool
  | .running => true
  | _ => false

/-- Starts the task unless it runs already.  Under a signal that was given before, it ends at once. -/
def start (signalled : Bool) : Lifecycle → Except ReceiverError Lifecycle
  | .running => .error .alreadyRunning
  | _ => .ok (if signalled then .ended else .running)

/-- Stops the task and waits for its end; without a task nothing happens. -/
def stop (_ : Lifecycle) : Lifecycle := .idle

/-- The task after the signal it was started under. -/
def cancel : Lifecycle → Lifecycle
  | .running => .ended
  | other => other

end Lifecycle

end Intake
