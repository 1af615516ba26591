/-
Module: Intake.Scheduled.Round
Purpose: One round of a scheduled receiver: the due targets are polled, settled and scheduled again.
Main exports: Scheduled.PollReport, Scheduled.pollOnce, Scheduled.Round, Scheduled.round,
  Scheduled.settleAll

All polls of a round end before the first target is settled, so the order in which they end has no
effect on what follows.
-/
import Intake.Receiver.Basic
import Intake.Schedule.Scheduler

namespace Intake

namespace Scheduled

open Schedule

/-- What a poll of one target came to: how it ended, and its items in order, each with the answer of the
item handler.  The target is told of each item right after the answer whether it was processed. -/
structure PollReport where
  result : PollEnd Item
  handled : List (Item × Except Fault Unit)

namespace PollReport

/-- Whether the target found anything; what became of the items does not matter. -/
def productive (r : PollReport) : Bool :=
  match r.result with
  | .found (_ :: _) => true
  | _ => false

/-- The items with what the target is told about them. -/
def finished (r : PollReport) : List (Item × Bool) :=
  r.handled.map fun (item, answer) => (item, answer.isOk)

end PollReport

/-- One poll of a target, with all its items handed over in turn. -/
def pollOnce (result : PollEnd Item) (handle : ItemHandler) : PollReport :=
  match result with
  | .found items => ⟨result, items.map fun item => (item, handle item)⟩
  | _ => ⟨result, []⟩

variable {δ : Type u}

/-- Applies the outcome of each poll and schedules its target again, from `now`.  A target that is gone is
passed over. -/
def settleAll (now : Instant) (scheduler : Scheduler δ) : List (String × Bool) → Scheduler δ
  | [] => scheduler
  | (key, productive) :: rest =>
    let next :=
      match scheduler.settle key productive with
      | .error _ => scheduler
      | .ok (_, settled) =>
        match settled.scheduleNext key now with
        | .ok (_, scheduled) => scheduled
        | .error _ => settled
    settleAll now next rest

/-- What a round did, and the scheduler after it. -/
structure Round (δ : Type u) where
  polled : List (Due δ × PollReport)
  scheduler : Scheduler δ

namespace Round

/-- The events that a round counts. -/
def counted (r : Round δ) : List Metrics.Event := r.polled.filterMap fun p => p.2.result.event?

end Round

/-- A round that drains the scheduler at `wake` and settles the targets at `settle`. -/
def round (scheduler : Scheduler δ) (wake settle : Instant) (poll : Due δ → PollEnd Item)
    (handle : ItemHandler) : Round δ :=
  let (due, drained) := scheduler.drain wake
  let polled := due.map fun d => (d, pollOnce (poll d) handle)
  ⟨polled, settleAll settle drained (polled.map fun (d, r) => (d.key, r.productive))⟩

end Scheduled

end Intake
