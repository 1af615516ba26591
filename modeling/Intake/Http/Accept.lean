/-
Module: Intake.Http.Accept
Purpose: The loop that accepts connections, bounded by permits, and its end.
Main exports: Http.AcceptError, Http.AcceptEnd, Http.AcceptLoop.Event, Http.AcceptLoop.Run,
  Http.AcceptLoop.Move, Http.AcceptLoop.Run.step?, Http.AcceptLoop.Run.run?

A permit is held only while the loop waits for a connection.  Once a connection is there it is served by a
task of its own, and the permit is free again.  Each move is a place where something outside decides: when
the loop is cancelled, which of two ready branches it takes, what an accept comes to, when a task ends and
how much time passes.  A connection that an accept still holds when the loop stops was never yielded.
-/
import Intake.Time.Duration
import Intake.Observe.Metrics
import Intake.Receiver.Basic

namespace Intake

namespace Http

/-- Why an accept failed. -/
inductive AcceptError where
  | connectionRefused
  | connectionAborted
  | connectionReset
  | listener (reason : String)
  deriving Repr, DecidableEq

/-- Whether an error concerns a single connection and not the listener. -/
def AcceptError.concernsConnection : AcceptError → Bool
  | .listener _ => false
  | _ => true

/-- A connection, with the label of its peer. -/
structure Connection (κ : Type) where
  stream : κ
  peer : String
  deriving Repr, DecidableEq

/-- What an accept comes to. -/
inductive AcceptEnd (κ : Type) where
  | connected (connection : Connection κ)
  | failed (error : AcceptError)
  deriving Repr, DecidableEq

namespace AcceptLoop

/-- How long open connections may go on once the loop has stopped, and how long the loop pauses after an
error of the listener. -/
structure Timing where
  drain : Duration
  pause : Duration
  deriving Repr, DecidableEq

/-- How long open connections may go on after the loop was cancelled, unless told otherwise. -/
def standardDrain : Duration := .ofSecs 5

/-- The pause after an error of the listener, unless told otherwise. -/
def standardPause : Duration := .ofSecs 1

/-- At least one accept may always be pending. -/
def permits (maxAccepts : Nat) : Nat := max maxAccepts 1

/-- How the task of a connection ends. -/
inductive TaskEnd where
  | finished
  | crashed
  | aborted
  deriving Repr, DecidableEq

/-- How far a task is, and whether the loop has taken note of its end. -/
inductive Stage where
  | served
  | ended (result : TaskEnd)
  | joined (result : TaskEnd)
  deriving Repr, DecidableEq

/-- The task that serves a connection. -/
structure Task (κ : Type) where
  connection : Connection κ
  stage : Stage
  deriving Repr, DecidableEq

def Task.isJoined {κ : Type} (t : Task κ) : Bool :=
  match t.stage with
  | .joined _ => true
  | _ => false

/-- Permits that are free, and whether more can be had. -/
structure Semaphore where
  free : Nat
  closed : Bool
  deriving Repr, DecidableEq

/-- Something that happens in a run.  The connections have places, in the order in which they came. -/
inductive Event (κ : Type) where
  | attempted
  | yielded (result : AcceptEnd κ)
  | counted (event : Metrics.Event)
  | handed (place : Nat) (connection : Connection κ)
  | paused
  | resumed
  | stopped
  | expired
  | ended (place : Nat) (result : TaskEnd)
  | joined (place : Nat)
  | returned (failure : Option ReceiverError)
  deriving Repr, DecidableEq

/-- Where the loop is: it waits for a permit, for a connection, or for the end of a pause, or it takes note
of tasks that have ended; or it has stopped accepting and waits for its tasks, at first until a deadline and
then for those that it aborts; or it has returned. -/
inductive Phase where
  | acquiring
  | accepting
  | pausing (deadline : Nat)
  | reaping
  | draining (deadline : Nat)
  | aborting
  | returned (failure : Option ReceiverError)
  deriving Repr, DecidableEq

/-- Whether the loop takes note of tasks that have ended. -/
def Phase.joins : Phase → Bool
  | .reaping => true
  | .draining _ => true
  | .aborting => true
  | _ => false

/-- Whether a task may end in some way.  A task on its own finishes or crashes. -/
def Phase.allows : Phase → TaskEnd → Bool
  | .aborting, _ => true
  | _, .aborted => false
  | _, _ => true

/-- What can happen next. -/
inductive Move (κ : Type) where
  | cancel
  | pass (nanos : Nat)
  | acquire
  | accept (result : AcceptEnd κ)
  | resume
  | next
  | stop
  | finish (place : Nat) (result : TaskEnd)
  | join (place : Nat)
  | expire
  | close
  deriving Repr, DecidableEq

/-- A run of the loop.  Time counts in nanoseconds from its start. -/
structure Run (κ : Type) where
  phase : Phase
  semaphore : Semaphore
  cancelled : Bool
  now : Nat
  connections : List (Task κ)
  trace : List (Nat × Event κ)
  deriving Repr, DecidableEq

/-- What the accepts of a run came to. -/
def yields {κ : Type} (trace : List (Nat × Event κ)) : List (AcceptEnd κ) :=
  trace.filterMap fun
    | (_, .yielded result) => some result
    | _ => none

namespace Run

variable {κ : Type}

def start (maxAccepts : Nat) : Run κ :=
  ⟨.acquiring, ⟨permits maxAccepts, false⟩, false, 0, [], []⟩

def record (r : Run κ) (events : List (Event κ)) : Run κ :=
  { r with trace := r.trace ++ events.map (r.now, ·) }

/-- The loop with its permit given back. -/
def release (r : Run κ) : Run κ :=
  { r with semaphore := { r.semaphore with free := r.semaphore.free + 1 } }

/-- The loop behind its end. -/
def returning (r : Run κ) (failure : Option ReceiverError) : Run κ :=
  { r with phase := .returned failure }.record [.returned failure]

/-- The loop after an accept.  Its permit is free whatever the result. -/
def afterAccept (timing : Timing) (r : Run κ) (result : AcceptEnd κ) : Run κ :=
  let freed := r.release.record [.yielded result]
  match result with
  | .connected connection =>
    { freed with
      phase := .reaping
      connections := r.connections ++ [Task.mk connection .served] }.record
        [.counted .connectionAccepted, .handed r.connections.length connection]
  | .failed error =>
    if error.concernsConnection then { freed with phase := .reaping }
    else { freed with phase := .pausing (r.now + timing.pause.nanos) }.record [.paused]

/-- The loop once it has seen that it is cancelled. -/
def stop (timing : Timing) (r : Run κ) : Run κ :=
  { r with phase := .draining (r.now + timing.drain.nanos) }.record [.stopped]

/-- The loop with a task at another stage. -/
def put (r : Run κ) (place : Nat) (connection : Connection κ) (stage : Stage) : Run κ :=
  { r with connections := r.connections.set place ⟨connection, stage⟩ }

/-- Whether the loop has taken note of the end of every task. -/
def isDrained (r : Run κ) : Bool := r.connections.all (·.isJoined)

/-- The loop after a move, if the move is possible. -/
def step? (timing : Timing) (r : Run κ) : Move κ → Option (Run κ)
  | .cancel => some { r with cancelled := true }
  | .pass nanos => some { r with now := r.now + nanos }
  | .acquire =>
    match r.phase, r.semaphore with
    | .acquiring, ⟨_, true⟩ => some (r.returning (some (.pollFailed "accept permits closed")))
    | .acquiring, ⟨free + 1, false⟩ =>
      some ({ r with phase := .accepting, semaphore := ⟨free, false⟩ }.record [.attempted])
    | _, _ => none
  | .accept result =>
    match r.phase with
    | .accepting => some (r.afterAccept timing result)
    | _ => none
  | .resume =>
    match r.phase with
    | .pausing deadline =>
      if deadline ≤ r.now then some ({ r with phase := .reaping }.record [.resumed]) else none
    | _ => none
  | .next =>
    match r.phase with
    | .reaping => some { r with phase := .acquiring }
    | _ => none
  | .stop =>
    match r.cancelled, r.phase with
    | true, .acquiring => some (r.stop timing)
    | true, .accepting => some (r.release.stop timing)
    | true, .pausing _ => some (r.stop timing)
    | _, _ => none
  | .finish place result =>
    match r.phase.allows result, r.connections[place]? with
    | true, some ⟨connection, .served⟩ =>
      some ((r.put place connection (.ended result)).record [.ended place result])
    | _, _ => none
  | .join place =>
    match r.phase.joins, r.connections[place]? with
    | true, some ⟨connection, .ended result⟩ =>
      some ((r.put place connection (.joined result)).record [.joined place])
    | _, _ => none
  | .expire =>
    match r.phase with
    | .draining deadline =>
      if deadline ≤ r.now ∧ r.isDrained = false then
        some ({ r with phase := .aborting }.record [.expired])
      else none
    | _ => none
  | .close =>
    match r.phase, r.isDrained with
    | .draining _, true => some (r.returning none)
    | .aborting, true => some (r.returning none)
    | _, _ => none

/-- The loop after moves, if every move was possible. -/
def run? (timing : Timing) (r : Run κ) (moves : List (Move κ)) : Option (Run κ) :=
  moves.foldlM (step? timing) r

/-- The loop after moves, as far as they are possible. -/
def runMoves (timing : Timing) (r : Run κ) (moves : List (Move κ)) : Run κ :=
  moves.foldl (fun r move => (step? timing r move).getD r) r

/-- Whether the loop has returned. -/
def isOver (r : Run κ) : Bool :=
  match r.phase with
  | .returned _ => true
  | _ => false

def freePermits (r : Run κ) : Nat := r.semaphore.free

/-- The tasks that finished. -/
def finishedCount (r : Run κ) : Nat :=
  r.connections.countP fun t => t.stage = .ended .finished ∨ t.stage = .joined .finished

/-- How many accepts came to something. -/
def attempts (r : Run κ) : Nat := (yields r.trace).length

/-- The events that the loop counted. -/
def counted (r : Run κ) : List Metrics.Event :=
  r.trace.filterMap fun
    | (_, .counted event) => some event
    | _ => none

end Run

end AcceptLoop

/-- A run whose connections hold nothing but their peers. -/
abbrev AcceptLoop : Type := AcceptLoop.Run Unit

end Http

end Intake
