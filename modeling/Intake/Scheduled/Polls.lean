/-
Module: Intake.Scheduled.Polls
Purpose: The polls of one round as tasks that go on in any order, step by step.
Main exports: PollEnd.ofResult, Scheduled.Task, Scheduled.Task.step?, Scheduled.Polls, Scheduled.Polls.start,
  Scheduled.Polls.run?, Scheduled.Polls.ownEvents, Scheduled.Polls.report?,
  Scheduled.PollReport.events, Scheduled.rearmed

A task goes on whenever what it waits for is there: the end of its poll, the answer of the item handler, the
end of what its target does about the item.  What these are and which task goes on next is not decided here:
a schedule is any list of moves.  The results are awaited in the order in which the tasks were created.
-/
import Intake.Scheduled.Round

namespace Intake

/-- How a poll ends that does not crash. -/
def PollEnd.ofResult : Except ReceiverError (List Item) → PollEnd Item
  | .ok items => .found items
  | .error cause => .failed cause

namespace Scheduled

open Schedule

/-! ### One task

A task waits at each of its stages for one thing: the end of its poll, the answer to an item, or the target to
be told of this answer. -/

/-- How far the task that polls one target is: `handing` waits for the answer of the handler to an item,
`telling` for the target to have been told of that answer. -/
inductive Task where
  | waiting
  | handing (found : List Item) (handled : List (Item × Except Fault Unit)) (item : Item)
      (rest : List Item)
  | telling (found : List Item) (handled : List (Item × Except Fault Unit)) (item : Item)
      (answer : Except Fault Unit) (rest : List Item)
  | ended (report : PollReport)

/-- What a task waits for. -/
inductive TaskMove where
  | poll (result : Except ReceiverError (List Item))
  | handle (answer : Except Fault Unit)
  | tell

/-- What a task does that others can see. -/
inductive TaskEvent where
  | polled (result : PollEnd Item)
  | counted (event : Metrics.Event)
  | handled (item : Item) (answer : Except Fault Unit)
  | finished (item : Item) (processed : Bool)

namespace Task

/-- The task after a move, with what it does, if the move is one that it waits for. -/
def step? : Task → TaskMove → Option (Task × List TaskEvent)
  | .waiting, .poll (.error cause) =>
    some (.ended ⟨.failed cause, []⟩, [.polled (.failed cause), .counted .pollFailed])
  | .waiting, .poll (.ok []) => some (.ended ⟨.found [], []⟩, [.polled (.found []), .counted .pollEmpty])
  | .waiting, .poll (.ok (item :: rest)) =>
    some (.handing (item :: rest) [] item rest,
      [.polled (.found (item :: rest)), .counted .pollProductive])
  | .handing found handled item rest, .handle answer =>
    some (.telling found handled item answer rest, [.handled item answer])
  | .telling found handled item answer [], .tell =>
    some (.ended ⟨.found found, handled ++ [(item, answer)]⟩, [.finished item answer.isOk])
  | .telling found handled item answer (next :: rest), .tell =>
    some (.handing found (handled ++ [(item, answer)]) next rest, [.finished item answer.isOk])
  | _, _ => none

/-- The task after moves in turn, if each is one that it waits for. -/
def run? (task : Task) (moves : List TaskMove) : Option Task :=
  moves.foldlM (fun task move => (task.step? move).map Prod.fst) task

end Task

/-! ### All tasks of a round

The tasks go on in any order and independently of each other, while their results are awaited in the order of
the targets. -/

/-- The tasks of a round with their targets, all that they have done so far, and the results awaited so
far. -/
structure Polls (δ : Type u) where
  tasks : List (Due δ × Task)
  trace : List (String × TaskEvent)
  joined : List (String × Bool)

/-- One move of a schedule: a task goes on, or the next result is awaited. -/
inductive Move where
  | go (place : Nat) (move : TaskMove)
  | join

/-- The moves of the task at one place. -/
def movesAt (place : Nat) (moves : List Move) : List TaskMove :=
  moves.filterMap fun
    | .go other move => if other = place then some move else none
    | .join => none

variable {δ : Type u}

namespace Polls

/-- A task for each target that is due. -/
def start (due : List (Due δ)) : Polls δ := ⟨due.map (·, .waiting), [], []⟩

/-- The state after a move, if it is possible. -/
def step? (p : Polls δ) : Move → Option (Polls δ)
  | .go place move =>
    match p.tasks[place]? with
    | some (due, task) =>
      (task.step? move).map fun (next, events) =>
        { p with
          tasks := p.tasks.set place (due, next)
          trace := p.trace ++ events.map (due.key, ·) }
    | none => none
  | .join =>
    match p.tasks[p.joined.length]? with
    | some (due, .ended report) => some { p with joined := p.joined ++ [(due.key, report.productive)] }
    | _ => none

/-- The state after a schedule, if every move was possible. -/
def run? (p : Polls δ) (moves : List Move) : Option (Polls δ) := moves.foldlM step? p

/-- Whether all results were awaited. -/
def isDone (p : Polls δ) : Bool := p.joined.length == p.tasks.length

/-- What was done for one target. -/
def ownEvents (key : String) (p : Polls δ) : List TaskEvent :=
  (p.trace.filter (·.1 == key)).map Prod.snd

/-- What the poll of a target came to, once its task has ended. -/
def report? (key : String) (p : Polls δ) : Option PollReport :=
  (p.tasks.find? (·.1.key == key)).bind fun
    | (_, .ended report) => some report
    | _ => none

end Polls

namespace PollReport

/-- A poll ends and is counted. -/
def begun (result : PollEnd Item) : List TaskEvent :=
  .polled result :: result.event?.toList.map .counted

/-- Items are handed over in order, and after each of them the target is told whether it was processed. -/
def handed (handled : List (Item × Except Fault Unit)) : List TaskEvent :=
  handled.flatMap fun (item, answer) => [.handled item answer, .finished item answer.isOk]

/-- All that one poll does. -/
def events (r : PollReport) : List TaskEvent := begun r.result ++ handed r.handled

/-- A poll that ended, all of whose items have been handed over. -/
def IsComplete (r : PollReport) : Prop :=
  match r.result with
  | .found items => r.handled.map Prod.fst = items
  | .failed _ => r.handled = []
  | .crashed => False

end PollReport

/-- Whether a poll has the given end, and its items the answers of a handler. -/
def TaskEvent.Follows (result : PollEnd Item) (handle : ItemHandler) : TaskEvent → Prop
  | .polled other => other = result
  | .handled item answer => answer = handle item
  | _ => True

/-- The entry of a target that was due, after its outcome is applied and it is scheduled again. -/
def rearmed (now : Instant) (productive : Bool) (e : Entry δ) : Entry δ :=
  let settled := e.settled productive
  { settled with phase := .scheduled (triggerSecond now settled.current) }

end Scheduled

end Intake
