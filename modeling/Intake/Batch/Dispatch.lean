/-
Module: Intake.Batch.Dispatch
Purpose: One batch: a task per item, all of them awaited, and faults routed item by item.
Main exports: Batch.TaskEnd, Batch.Report, Batch.Task, Batch.TaskEvent, Batch.Dispatch,
  Batch.Dispatch.step?, Batch.Dispatch.run?

A task is created for each item in turn, and goes on from then on whether or not the other items have tasks.
Once all have, the results are awaited in the order of the items, and each fault is routed to its end before
the next result is awaited.  Which task goes on next is not decided here: a schedule is any list of moves.
How a task ends depends on its place in the batch and on its item, so the schedule decides only when things
happen.
-/
import Intake.Fault.Basic

namespace Intake

namespace Batch

/-- How the task of an item ends. -/
inductive TaskEnd where
  | completed
  | faulted (fault : Fault)
  | crashed (reason : String)
  deriving Repr, DecidableEq

/-- The fault that the end of a task stands for. -/
def TaskEnd.fault? (key : String) : TaskEnd → Option Fault
  | .completed => none
  | .faulted fault => some fault
  | .crashed reason =>
    some (.taskAborted ("task for item '" ++ key ++ "' did not complete: " ++ reason))

def TaskEnd.isCompleted : TaskEnd → Bool
  | .completed => true
  | _ => false

/-- How many items of a batch were processed, and how many were not. -/
@[ext] structure Report where
  completed : Nat
  faulted : Nat
  deriving Repr, DecidableEq

/-- How far a task is, and how far the batch is with it. -/
inductive Stage where
  | waiting
  | running
  | ended (result : TaskEnd)
  | routing (result : TaskEnd)
  | settled (result : TaskEnd)
  deriving Repr, DecidableEq

/-- The task of an item, with the key of the item. -/
structure Task (ι : Type u) where
  key : String
  item : ι
  stage : Stage
  deriving Repr, DecidableEq

/-- Something that is done about one item: its task begins and ends, and the routing of its fault begins
and ends. -/
inductive TaskEvent (ι : Type u) where
  | started (item : ι)
  | ended (item : ι) (result : TaskEnd)
  | routing (key : String) (fault : Fault)
  | routed
  deriving Repr, DecidableEq

/-- A batch on its way: the items that have no task yet, the tasks of the others, the number of tasks that
are settled, and the report so far. -/
structure Dispatch (ι : Type u) where
  unspawned : List ι
  tasks : List (Task ι)
  settled : Nat
  report : Report
  deriving Repr, DecidableEq

namespace Dispatch

/-- One move of a schedule: the next item gets its task, a task begins, a task ends, the next result is
awaited, or the routing of a fault ends. -/
inductive Move where
  | spawn
  | start (place : Nat)
  | finish (place : Nat)
  | join
  | settle
  deriving Repr, DecidableEq

variable {ι : Type u}

def create (items : List ι) : Dispatch ι := ⟨items, [], 0, ⟨0, 0⟩⟩

/-- Whether all results were awaited and all faults routed. -/
def isDone (d : Dispatch ι) : Bool := d.unspawned.isEmpty && d.settled == d.tasks.length

/-- The batch with a task at another stage. -/
def put (d : Dispatch ι) (place : Nat) (task : Task ι) (stage : Stage) : Dispatch ι :=
  { d with tasks := d.tasks.set place { task with stage } }

@[simp] theorem report_put (d : Dispatch ι) (place : Nat) (task : Task ι) (stage : Stage) :
    (d.put place task stage).report = d.report := rfl

/-- The batch after its next result was awaited, and what is done about it. -/
def join (d : Dispatch ι) (task : Task ι) (result : TaskEnd) :
    Dispatch ι × List (Nat × TaskEvent ι) :=
  match result.fault? task.key with
  | none =>
    ({ d.put d.settled task (.settled result) with
        settled := d.settled + 1
        report := { d.report with completed := d.report.completed + 1 } }, [])
  | some fault =>
    ({ d.put d.settled task (.routing result) with
        report := { d.report with faulted := d.report.faulted + 1 } },
      [(d.settled, .routing task.key fault)])

/-- The batch after a move, if the move is possible, with what is done at which place. -/
def step? (key : ι → String) (handle : Nat → ι → TaskEnd) (d : Dispatch ι) :
    Move → Option (Dispatch ι × List (Nat × TaskEvent ι))
  | .spawn =>
    match d.unspawned with
    | [] => none
    | item :: rest =>
      some ({ d with unspawned := rest, tasks := d.tasks ++ [⟨key item, item, .waiting⟩] }, [])
  | .start place =>
    match d.tasks[place]? with
    | some ⟨key, item, .waiting⟩ =>
      some (d.put place ⟨key, item, .waiting⟩ .running, [(place, .started item)])
    | _ => none
  | .finish place =>
    match d.tasks[place]? with
    | some ⟨key, item, .running⟩ =>
      let result := handle place item
      some (d.put place ⟨key, item, .running⟩ (.ended result), [(place, .ended item result)])
    | _ => none
  | .join =>
    match d.unspawned, d.tasks[d.settled]? with
    | [], some ⟨key, item, .ended result⟩ => some (d.join ⟨key, item, .ended result⟩ result)
    | _, _ => none
  | .settle =>
    match d.tasks[d.settled]? with
    | some ⟨key, item, .routing result⟩ =>
      some ({ d.put d.settled ⟨key, item, .routing result⟩ (.settled result) with
          settled := d.settled + 1 }, [(d.settled, .routed)])
    | _ => none

/-- A batch and all that was done in it, after one more move. -/
def advance? (key : ι → String) (handle : Nat → ι → TaskEnd)
    (s : Dispatch ι × List (Nat × TaskEvent ι)) (move : Move) :
    Option (Dispatch ι × List (Nat × TaskEvent ι)) :=
  (s.1.step? key handle move).map fun (next, events) => (next, s.2 ++ events)

/-- A batch after a schedule, with all that was done in it, if every move was possible. -/
def run? (key : ι → String) (handle : Nat → ι → TaskEnd) (items : List ι) (moves : List Move) :
    Option (Dispatch ι × List (Nat × TaskEvent ι)) :=
  moves.foldlM (advance? key handle) (create items, [])

end Dispatch

end Batch

end Intake
