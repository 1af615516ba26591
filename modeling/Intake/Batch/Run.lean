/-
Module: Intake.Batch.Run
Purpose: The loop of a batch dispatcher: poll, dispatch, poll again, until it is cancelled.
Main exports: Batch.Source, Batch.Event, Batch.Phase, Batch.Run, Batch.Move, Batch.Run.step?, Batch.Run.run?

Each move is a place where something outside decides: when the loop is cancelled, which of two ready
branches it takes, and which task goes on.  A poll that has begun is dropped where the loop stops first.
-/
import Intake.Batch.Dispatch
import Intake.Receiver.Basic

namespace Intake

namespace Batch

/-- What a batch dispatcher polls: the end of each poll in turn, the key of an item, and how the task of an
item ends that a poll found at some place. -/
structure Source (ι : Type u) where
  poll : Nat → PollEnd ι
  key : ι → String
  handle : (poll place : Nat) → ι → TaskEnd

/-- Something that happens in a run.  Polls are numbered, and the items of a poll have places. -/
inductive Event (ι : Type u) where
  | begun (poll : Nat)
  | polled (poll : Nat) (result : PollEnd ι)
  | counted (event : Metrics.Event)
  | task (poll place : Nat) (event : TaskEvent ι)
  | released
  deriving Repr, DecidableEq

/-- Where the loop is.  A run whose poll crashed is aborted. -/
inductive Phase (ι : Type u) where
  | ready
  | polling
  | dispatching (poll : Nat) (batch : Dispatch ι)
  | sleeping
  | stopped
  | aborted
  deriving Repr, DecidableEq

/-- The tally of a run: polls that found items, polls that found none, and polls that failed. -/
structure Summary where
  rounds : Nat
  emptyPolls : Nat
  failedPolls : Nat
  deriving Repr, DecidableEq

structure Run (ι : Type u) where
  phase : Phase ι
  polls : Nat
  summary : Summary
  cancelled : Bool
  trace : List (Event ι)
  deriving Repr, DecidableEq

/-- What can happen next. -/
inductive Move where
  | cancel
  | begin
  | poll
  | batch (move : Dispatch.Move)
  | wake
  | stop
  deriving Repr, DecidableEq

namespace Run

variable {ι : Type u}

def start : Run ι := ⟨.ready, 0, ⟨0, 0, 0⟩, false, []⟩

def record (r : Run ι) (events : List (Event ι)) : Run ι := { r with trace := r.trace ++ events }

/-- The run after a poll.  Whatever ends the loop, open claims are given back once. -/
def afterPoll (r : Run ι) (result : PollEnd ι) : Run ι :=
  let polled := { r with polls := r.polls + 1 }.record [.polled r.polls result]
  let s := r.summary
  match result with
  | .found [] =>
    { polled with summary := { s with emptyPolls := s.emptyPolls + 1 }, phase := .sleeping }.record
      [.counted .pollEmpty]
  | .found (item :: items) =>
    { polled with
      summary := { s with rounds := s.rounds + 1 }
      phase := .dispatching r.polls (.create (item :: items)) }.record [.counted .pollProductive]
  | .failed _ =>
    { polled with summary := { s with failedPolls := s.failedPolls + 1 }, phase := .sleeping }.record
      [.counted .pollFailed]
  | .crashed => { polled with phase := .aborted }.record [.released]

/-- The loop goes on once a batch is done. -/
def phaseAfter (poll : Nat) (batch : Dispatch ι) : Phase ι :=
  if batch.isDone then .ready else .dispatching poll batch

/-- The run behind the end of the loop. -/
def stop (r : Run ι) : Run ι := { r with phase := .stopped }.record [.released]

/-- The run after a move, if the move is possible. -/
def step? (source : Source ι) (r : Run ι) : Move → Option (Run ι)
  | .cancel => some { r with cancelled := true }
  | .begin =>
    match r.phase with
    | .ready => some ({ r with phase := .polling }.record [.begun r.polls])
    | _ => none
  | .poll =>
    match r.phase with
    | .polling => some (r.afterPoll (source.poll r.polls))
    | _ => none
  | .batch move =>
    match r.phase with
    | .dispatching poll batch =>
      (batch.step? source.key (source.handle poll) move).map fun (next, events) =>
        { r with phase := phaseAfter poll next }.record
          (events.map fun (place, event) => .task poll place event)
    | _ => none
  | .wake =>
    match r.phase with
    | .sleeping => some { r with phase := .ready }
    | _ => none
  | .stop =>
    match r.cancelled, r.phase with
    | true, .ready => some r.stop
    | true, .polling => some r.stop
    | true, .sleeping => some r.stop
    | _, _ => none

/-- The run after moves, if every move was possible. -/
def run? (source : Source ι) (r : Run ι) (moves : List Move) : Option (Run ι) :=
  moves.foldlM (step? source) r

/-- Whether the loop has ended. -/
def isOver (r : Run ι) : Bool :=
  match r.phase with
  | .stopped => true
  | .aborted => true
  | _ => false

/-- The events that a run counted. -/
def counted (r : Run ι) : List Metrics.Event :=
  r.trace.filterMap fun
    | .counted event => some event
    | _ => none

end Run

end Batch

end Intake
