/-
Module: Intake.Scheduled.Registration
Purpose: Takes the targets of a scheduled receiver into its scheduler, all of them due at once.
Main exports: Scheduled.Registration, Scheduled.Receiver, Scheduled.Receiver.registerTargets,
  Scheduled.Receiver.takeTargets
-/
import Intake.Receiver.Settings
import Intake.Schedule.Scheduler

namespace Intake

namespace Scheduled

open Schedule

/-- A target that waits for the start of its receiver, with bounds of its own where it has some. -/
structure Registration (δ : Type u) where
  key : String
  target : δ
  least : Option Duration
  greatest : Option Duration
  deriving Repr, DecidableEq

/-- A receiver that polls many targets, each in intervals of its own. -/
structure Receiver (δ : Type u) where
  name : String
  settings : PollSettings
  pending : List (Registration δ)
  scheduler : Scheduler δ
  deriving Repr, DecidableEq

/-- Why the targets were not taken: a key is in use, or the time at which a target should have been
scheduled lies outside the calendar, which no check prevents. -/
inductive RegistrationFailure where
  | refused (cause : Schedule.Error)
  | outOfCalendar
  deriving Repr, DecidableEq

variable {δ : Type u}

/-- The first key that is in use already or that repeats an earlier one. -/
def firstTaken? (scheduler : Scheduler δ) (earlier : List String) :
    List (Registration δ) → Option String
  | [] => none
  | r :: rest =>
    if scheduler.entries.contains r.key ∨ r.key ∈ earlier then some r.key
    else firstTaken? scheduler (r.key :: earlier) rest

/-- Takes one target, scheduled as if its first interval ended now. -/
def registerOne (settings : PollSettings) (now : Instant) (scheduler : Scheduler δ)
    (r : Registration δ) : Except RegistrationFailure (Scheduler δ) := do
  let least := r.least.getD settings.least
  let greatest := r.greatest.getD settings.greatest
  let registered ← (scheduler.register r.key least greatest r.target).mapError .refused
  let interval := (registered.current? r.key).getD least
  (now.minusMillis? interval.wholeMillis).elim (.error .outOfCalendar) fun start =>
    ((registered.scheduleNext r.key start).map Prod.snd).mapError .refused

/-- What taking one target answers, and the scheduler that it leaves behind also where it fails: a target that
was registered before its time turned out to lie outside the calendar stays so, without being scheduled. -/
def takeOne (settings : PollSettings) (now : Instant) (scheduler : Scheduler δ) (r : Registration δ) :
    Except RegistrationFailure Unit × Scheduler δ :=
  match registerOne settings now scheduler r with
  | .ok taken => (.ok (), taken)
  | .error failure =>
    let least := r.least.getD settings.least
    let greatest := r.greatest.getD settings.greatest
    match scheduler.register r.key least greatest r.target with
    | .ok registered => (.error failure, registered)
    | .error _ => (.error failure, scheduler)

/-- Takes targets in turn up to the first failure.  What was taken before it stays. -/
def takeInTurn (settings : PollSettings) (now : Instant) (scheduler : Scheduler δ) :
    List (Registration δ) → Except RegistrationFailure Unit × Scheduler δ
  | [] => (.ok (), scheduler)
  | r :: rest =>
    match takeOne settings now scheduler r with
    | (.error failure, left) => (.error failure, left)
    | (.ok _, left) => takeInTurn settings now left rest

namespace Receiver

def create (name : String) : Receiver δ := ⟨name, .standard, [], .empty⟩

def addTarget (receiver : Receiver δ) (r : Registration δ) : Receiver δ :=
  { receiver with pending := receiver.pending ++ [r] }

/-- Takes all targets that wait.  All keys are checked before the first target is taken. -/
def registerTargets (receiver : Receiver δ) (now : Instant) :
    Except RegistrationFailure (Receiver δ) :=
  match firstTaken? receiver.scheduler [] receiver.pending with
  | some key => .error (.refused (.duplicateKey key))
  | none =>
    (receiver.pending.foldlM (registerOne receiver.settings now) receiver.scheduler).map
      fun scheduler => { receiver with pending := [], scheduler }

/-- What taking all targets answers, and the receiver that it leaves behind also where it fails.  A key in use
leaves everything as it was.  Once the first target is taken, none waits any more, whatever becomes of it. -/
def takeTargets (receiver : Receiver δ) (now : Instant) :
    Except RegistrationFailure Unit × Receiver δ :=
  match firstTaken? receiver.scheduler [] receiver.pending with
  | some key => (.error (.refused (.duplicateKey key)), receiver)
  | none =>
    let (answer, scheduler) := takeInTurn receiver.settings now receiver.scheduler receiver.pending
    (answer, { receiver with pending := [], scheduler })

end Receiver

end Scheduled

end Intake
