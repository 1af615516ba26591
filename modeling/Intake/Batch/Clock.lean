/-
Module: Intake.Batch.Clock
Purpose: Runs of a batch dispatcher along a clock on which only sleeping and items take time.
Main exports: Batch.Timing, Batch.dispatchByTime, Batch.Run.driven
-/
import Intake.Batch.Run

namespace Intake

namespace Batch

/-- The milliseconds that each item takes, that the loop sleeps, and after which it is cancelled. -/
structure Timing (ι : Type u) where
  itemMillis : ι → Nat
  interval : Nat
  cancelAt : Nat

variable {ι : Type u}

/-- The beginnings of tasks in order; a task that takes no time ends at once. -/
def startMoves (times : List Nat) : List Dispatch.Move :=
  times.zipIdx.flatMap fun (time, place) =>
    if time = 0 then [.start place, .finish place] else [.start place]

/-- The other ends in the order of time, those of one instant in the order of creation. -/
def finishMoves (times : List Nat) : List Dispatch.Move :=
  let slow := times.zipIdx.filter fun (time, _) => time ≠ 0
  (slow.mergeSort fun a b => decide (a.1 ≤ b.1)).map fun (_, place) => .finish place

/-- The results are awaited in order, and routing takes no time. -/
def joinMoves (results : List TaskEnd) : List Dispatch.Move :=
  results.flatMap fun result => if result.isCompleted then [.join] else [.join, .settle]

/-- The moves of one batch by time: all tasks begin together, and results are awaited at the end. -/
def dispatchMoves (timing : Timing ι) (handle : Nat → ι → TaskEnd) (items : List ι) :
    List Dispatch.Move :=
  let times := items.map timing.itemMillis
  items.map (fun _ => .spawn) ++ startMoves times ++ finishMoves times ++
    joinMoves (items.mapIdx handle)

/-- How long a batch takes. -/
def dispatchMillis (timing : Timing ι) (items : List ι) : Nat :=
  (items.map timing.itemMillis).foldl max 0

/-- A single batch on its own, as the first that a source finds. -/
def dispatchByTime (source : Source ι) (timing : Timing ι) (items : List ι) :
    Dispatch ι × List (Nat × TaskEvent ι) :=
  let moves := dispatchMoves timing (source.handle 0) items
  (Dispatch.run? source.key (source.handle 0) items moves).getD (.create items, [])

namespace Run

/-- The run after moves; where one is not possible, nothing happens. -/
def runMoves (source : Source ι) (r : Run ι) (moves : List Move) : Run ι :=
  (r.run? source moves).getD r

/-- Goes on with a run at `now` for at most `fuel` phases. -/
def driveFrom (source : Source ι) (timing : Timing ι) : (fuel now : Nat) → Run ι → Run ι
  | 0, _, r => r
  | fuel + 1, now, r =>
    match r.phase with
    | .ready =>
      if timing.cancelAt ≤ now then r.runMoves source [.cancel, .stop]
      else driveFrom source timing fuel now (r.runMoves source [.begin, .poll])
    | .dispatching poll batch =>
      let items := batch.unspawned
      driveFrom source timing fuel (now + dispatchMillis timing items)
        (r.runMoves source ((dispatchMoves timing (source.handle poll) items).map .batch))
    | .sleeping =>
      if timing.cancelAt ≤ now + timing.interval then r.runMoves source [.cancel, .stop]
      else driveFrom source timing fuel (now + timing.interval) (r.runMoves source [.wake])
    | _ => r

/-- The run of a source that has `batches` batches at most.  Every other poll is followed by a sleep,
which takes at least a millisecond. -/
def driven (source : Source ι) (timing : Timing ι) (batches : Nat) : Run ι :=
  driveFrom source timing (2 * (batches + timing.cancelAt + 2)) 0 .start

end Run

end Batch

end Intake
