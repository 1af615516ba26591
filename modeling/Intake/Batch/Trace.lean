/-
Module: Intake.Batch.Trace
Purpose: What the traces of batches and of runs tell.
Main exports: Batch.course, Batch.ownEvents, Batch.Handled, Batch.pollEnds, Batch.batchTrace, Batch.Settled,
  Batch.Due, Batch.Run.Accounted, Batch.Run.Undisturbed, Batch.Run.GoesOn

A batch is handled when everything has been done about each of its items that the end of its task asks for,
and nothing else.  Tasks may end in any order; faults are routed in the order of the items.  A run that has
ended is accounted for when its tally and its trace agree with the polls that came to their ends, as the moves
of the run have it.
-/
import Intake.Batch.Run

namespace Intake

/-! ### One poll -/

namespace PollEnd

variable {ι : Type u}

def isProductive : PollEnd ι → Bool
  | .found (_ :: _) => true
  | _ => false

def isEmpty : PollEnd ι → Bool
  | .found [] => true
  | _ => false

def isFailed : PollEnd ι → Bool
  | .failed _ => true
  | _ => false

/-- Whether a poll came to its end; one that crashed did not. -/
def isCompleted : PollEnd ι → Bool
  | .crashed => false
  | _ => true

end PollEnd

namespace Batch

variable {ι : Type u}

/-! ### One batch

What must happen about one item is its course, which follows from the end of its task.  A batch is handled if
every item has gone through its course and nothing else has happened. -/

/-- What the batch itself does about an item, once its task was awaited. -/
def TaskEvent.isRouting : TaskEvent ι → Bool
  | .routing .. => true
  | .routed => true
  | _ => false

/-- All that is done about an item whose task ends in some way. -/
def course (key : String) (item : ι) : TaskEnd → List (TaskEvent ι)
  | .completed => [.started item, .ended item .completed]
  | .faulted fault =>
    [.started item, .ended item (.faulted fault), .routing key fault, .routed]
  | .crashed reason =>
    let fault := Fault.taskAborted ("task for item '" ++ key ++ "' did not complete: " ++ reason)
    [.started item, .ended item (.crashed reason), .routing key fault, .routed]

/-- What was done about the item at a place. -/
def ownEvents (place : Nat) (trace : List (Nat × TaskEvent ι)) : List (TaskEvent ι) :=
  (trace.filter (·.1 == place)).map Prod.snd

/-- All has been done about the items of a batch, and nothing about anything else. -/
structure Handled (key : ι → String) (handle : Nat → ι → TaskEnd) (items : List ι)
    (trace : List (Nat × TaskEvent ι)) : Prop where
  own : ∀ place item, items[place]? = some item →
    ownEvents place trace = course (key item) item (handle place item)
  known : ∀ x ∈ trace, x.1 < items.length
  inOrder : ((trace.filter (·.2.isRouting)).map Prod.fst).Pairwise (· ≤ ·)

/-! ### Runs

The trace of a run is compared with the moves that led to it and with the source, and never with the counters
that the run keeps itself. -/

/-- The polls that ended, with their ends. -/
def pollEnds (trace : List (Event ι)) : List (Nat × PollEnd ι) :=
  trace.filterMap fun
    | .polled poll result => some (poll, result)
    | _ => none

/-- What was done about the items of one poll. -/
def batchTrace (poll : Nat) (trace : List (Event ι)) : List (Nat × TaskEvent ι) :=
  trace.filterMap fun
    | .task other place event => if other = poll then some (place, event) else none
    | _ => none

/-- The items of all polls that ended were handled. -/
def Settled (source : Source ι) (trace : List (Event ι)) : Prop :=
  ∀ poll items, .polled poll (.found items) ∈ trace →
    Handled source.key (source.handle poll) items (batchTrace poll trace)

/-- What must have been done before an event. -/
def Due (source : Source ι) (before : List (Event ι)) : Event ι → Prop
  | .begun _ => Settled source before
  | .polled poll _ => .begun poll ∈ before
  | .counted event => ∃ poll result, .polled poll result ∈ before ∧ result.event? = some event
  | .task poll _ _ => ∃ items, .polled poll (.found items) ∈ before
  | .released => Settled source before

namespace Run

/-- What there is to say about a run that some moves have brought to its end. -/
structure Accounted (source : Source ι) (moves : List Move) (r : Run ι) : Prop where
  /-- Each poll that came to its end is noted, and nothing else is. -/
  polls : r.polls = moves.count .poll
  /-- These are the first polls of the source, each once and with its own end. -/
  ends : pollEnds r.trace = (List.range (moves.count .poll)).map fun n => (n, source.poll n)
  rounds : r.summary.rounds = (pollEnds r.trace).countP (·.2.isProductive)
  emptyPolls : r.summary.emptyPolls = (pollEnds r.trace).countP (·.2.isEmpty)
  failedPolls : r.summary.failedPolls = (pollEnds r.trace).countP (·.2.isFailed)
  /-- Every poll that completed is in one of the three. -/
  whole : r.summary.rounds + r.summary.emptyPolls + r.summary.failedPolls =
    (pollEnds r.trace).countP (·.2.isCompleted)
  /-- The counters grow by the tally. -/
  metrics : ∀ (m : Metrics) (now : Nat), m.recordAll now r.counted =
    { m with
      pollsProductive := m.pollsProductive + r.summary.rounds
      pollsEmpty := m.pollsEmpty + r.summary.emptyPolls
      pollsFailed := m.pollsFailed + r.summary.failedPolls }
  /-- Each item that was found was handled. -/
  handled : Settled source r.trace
  /-- In particular, a poll begins only when the items of the polls before it were handled. -/
  inOrder : ∀ before event after, r.trace = before ++ event :: after → Due source before event
  /-- Open claims are given back once, after everything else. -/
  released : ∃ before, r.trace = before ++ [.released] ∧ .released ∉ before

/-- Whether moves leave the loop uncancelled. -/
def Undisturbed (moves : List Move) : Prop := .cancel ∉ moves ∧ .stop ∉ moves

/-- What can become of a run. -/
structure GoesOn (source : Source ι) (r : Run ι) : Prop where
  /-- A loop that has not ended goes on polling, whatever its polls come to.  Only one that crashes ends it. -/
  polls : r.isOver = false → ∀ n, (∀ k < n, source.poll (r.polls + k) ≠ .crashed) →
    ∃ more next, Undisturbed more ∧ more.count .poll = n ∧ r.run? source more = some next ∧
      next.isOver = false
  /-- It can be brought to its end. -/
  ends : ∃ more last, r.run? source more = some last ∧ last.isOver = true

end Run

end Batch

end Intake
