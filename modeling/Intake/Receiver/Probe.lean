/-
Module: Intake.Receiver.Probe
Purpose: Poll targets that follow a script and keep a log, for trying out receivers.
Main exports: ScriptedTarget, ScriptedTarget.poll, ScriptedTarget.batchSource,
  ScriptedTarget.batchLog, ScriptedTarget.roundLog
-/
import Intake.Batch.Run
import Intake.Receiver.Basic
import Intake.Scheduled.Round

namespace Intake

/-- A target that finds batches in turn, or whose polls all fail.  One that crashes does so after its poll
was logged. -/
structure ScriptedTarget where
  key : String
  batches : List (List Item)
  fails : Bool
  crashes : Bool
  deriving Repr, DecidableEq

namespace ScriptedTarget

/-- What a poll finds or reports. -/
def scripted (t : ScriptedTarget) (n : Nat) : PollEnd Item :=
  let cause : ReceiverError := .pollFailed (t.key ++ " unreachable")
  if t.fails then .failed cause else .scripted 0 cause t.batches n

def poll (t : ScriptedTarget) (n : Nat) : PollEnd Item :=
  if t.crashes then .crashed else t.scripted n

def pollText (t : ScriptedTarget) (n : Nat) : String :=
  match t.scripted n with
  | .found items => "poll:" ++ toString items.length
  | .failed cause => "poll:" ++ cause.message
  | .crashed => "poll:"

/-- The log entry of an item that was settled. -/
def finishText (item : Item) (processed : Bool) : String :=
  "finish:" ++ item.messageId.getD "-" ++ ":" ++ toString processed

def releaseText : String := "release"

/-- The target as a source of batches, with a handler for its items. -/
def batchSource (t : ScriptedTarget) (handle : ItemHandler) : Batch.Source Item where
  poll := t.poll
  key item := item.messageId.getD item.source
  handle _ _ item :=
    match handle item with
    | .ok () => .completed
    | .error fault => .faulted fault

/-- The log of a batch run.  Each item is settled when its task ends. -/
def batchLog (t : ScriptedTarget) (trace : List (Batch.Event Item)) : List String :=
  trace.filterMap fun
    | .polled n _ => some (t.pollText n)
    | .task _ _ (.ended item result) => some (finishText item result.isCompleted)
    | .released => some releaseText
    | _ => none

/-- The log of a target that was polled once and released. -/
def roundLog (t : ScriptedTarget) (report : Option Scheduled.PollReport) : List String :=
  let finished := (report.map Scheduled.PollReport.finished).getD []
  t.pollText 0 :: finished.map (fun (item, processed) => finishText item processed) ++ [releaseText]

end ScriptedTarget

/-- The items that were handed to tasks. -/
def Batch.startedItems (trace : List (Batch.Event ι)) : List ι :=
  trace.filterMap fun
    | .task _ _ (.started item) => some item
    | _ => none

end Intake
