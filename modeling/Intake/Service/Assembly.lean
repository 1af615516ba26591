/-
Module: Intake.Service.Assembly
Purpose: The agent and the receivers that a configuration asks for, and their start.
Main exports: StartError, StartError.message, Config.agent, Config.assemble, Assembly, Assembly.start,
  Assembly.Failure
-/
import Intake.Agent.Basic
import Intake.Config.Basic
import Intake.Http.Submission
import Intake.Pickup.Basic
import Intake.Pipeline.Step
import Intake.Scheduled.Registration

namespace Intake

/-- Why an intake did not start. -/
inductive StartError where
  | config (cause : Config.Error)
  | receiver (cause : ReceiverError)
  | schedule (cause : Schedule.Error)
  | io (reason : String)
  deriving Repr, DecidableEq

def StartError.message : StartError → String
  | .config cause => "Configuration error: " ++ cause.message
  | .receiver cause => "Receiver error: " ++ cause.message
  | .schedule cause => "Scheduler error: " ++ cause.message
  | .io reason => "I/O error: " ++ reason

/-- The agent of an intake.  Its normal pipeline only logs; items without an identifier get `freshId`. -/
def Config.agent (c : Config) (freshId : String) : Agent Item where
  name := c.identity.id ++ "-agent"
  transform := Item.toContext c.identity.pipeline freshId
  normal := .sequence [.step .logContext]
  error := .empty

/-- The receivers of an intake: one for HTTP, one for all directories polled in intervals of their own, and
one for each directory polled in batches. -/
structure Assembly where
  http : Option Http.Receiver
  scheduled : Scheduled.Receiver Pickup
  batches : List (Pickup × BatchSettings)

namespace Assembly

/-- Why receivers did not come up: one of them refused, or a number of seconds lies beyond all spans or
all dates, which no check prevents. -/
inductive Failure where
  | refused (cause : StartError)
  | outOfRange
  deriving Repr, DecidableEq

/-- How many receivers there are.  One without directories is left out. -/
def receiverCount (a : Assembly) : Nat :=
  a.http.toList.length + (if a.scheduled.pending.isEmpty then 0 else 1) + a.batches.length

/-- The directories that are polled. -/
def pickups (a : Assembly) : List Pickup :=
  a.scheduled.scheduler.entries.values.map (·.descriptor) ++ a.batches.map Prod.fst

/-- The receivers once they run, with all scheduled directories due at once. -/
def start (a : Assembly) (now : Instant) : Except Failure Assembly :=
  match a.scheduled.registerTargets now with
  | .ok scheduled => .ok { a with scheduled }
  | .error (.refused cause) => .error (.refused (.receiver (.schedule cause)))
  | .error .outOfCalendar => .error .outOfRange

end Assembly

namespace Config

open Assembly (Failure)

/-- The span of an optional number of seconds. -/
def span? : Option Binary64 → Except Failure (Option Duration)
  | none => .ok none
  | some seconds =>
    match Duration.ofSeconds? seconds with
    | some d => .ok (some d)
    | none => .error .outOfRange

def assembleHttp (c : Config) : Except Failure (Option Http.Receiver) :=
  match c.httpSettings? with
  | none => .ok none
  | some changes =>
    match HttpSettings.standard.configure changes with
    | .error cause => .error (.refused (.receiver cause))
    | .ok settings => .ok (some { Http.Receiver.create "http" with settings })

/-- Adds a directory with bounds of its own. -/
def addScheduled (receiver : Scheduled.Receiver Intake.Pickup) (p : Pickup) :
    Except Failure (Scheduled.Receiver Intake.Pickup) := do
  let least ← span? p.minSecs
  let greatest ← span? p.maxSecs
  return receiver.addTarget ⟨p.key, .create p.key p.directory, least, greatest⟩

def assembleScheduled (c : Config) : Except Failure (Scheduled.Receiver Intake.Pickup) :=
  match PollSettings.standard.configure c.pollSettings with
  | (_, .error (.refused cause)) => .error (.refused (.receiver cause))
  | (_, .error .outOfRange) => .error .outOfRange
  | (settings, .ok ()) =>
    (c.pickupsBy .scheduled).foldlM addScheduled { Scheduled.Receiver.create "pickup" with settings }

def assembleBatch (c : Config) (p : Pickup) : Except Failure (Intake.Pickup × BatchSettings) :=
  match BatchSettings.standard.configure c.batchSettings with
  | .error cause => .error (.refused (.receiver cause))
  | .ok settings => .ok (.create p.key p.directory, settings)

/-- All receivers; the first that cannot be set up decides the failure. -/
def assemble (c : Config) : Except Failure Assembly := do
  let http ← c.assembleHttp
  let scheduled ← c.assembleScheduled
  let batches ← (c.pickupsBy .batch).mapM c.assembleBatch
  return { http, scheduled, batches }

end Config

end Intake
