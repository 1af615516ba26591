/-
Module: Intake.Schedule.Agenda
Purpose: An interval scheduler without buckets, as a description of what the buckets are for.
Main exports: Schedule.Appointment, Schedule.Agenda, Schedule.Agenda.drain, Schedule.Agenda.apply

Each target carries the number of the scheduling that it waits by.  Targets are due in the order of their
seconds, and within one second in the order of these numbers.
-/
import Intake.Schedule.Scheduler

namespace Intake

namespace Schedule

/-- A target, with the number of its last scheduling. -/
structure Appointment (δ : Type u) where
  entry : Entry δ
  serial : Nat
  deriving Repr, DecidableEq

namespace Appointment

variable {δ : Type u}

/-- The second that a target waits for. -/
def second? (a : Appointment δ) : Option Int :=
  match a.entry.phase with
  | .scheduled second => some second
  | _ => none

/-- Whether a target waits for a second that has begun. -/
def isDueBy (second : Int) (a : Appointment δ) : Bool :=
  match a.second? with
  | some s => decide (s ≤ second)
  | none => false

/-- The order in which targets are due. -/
def precedes (a b : Appointment δ) : Bool :=
  match a.second?, b.second? with
  | some s, some t => decide (s < t) || (s == t && decide (a.serial ≤ b.serial))
  | _, _ => true

/-- The target as it is handed out. -/
def due (a : Appointment δ) : Due δ :=
  ⟨a.entry.key, a.entry.descriptor, a.entry.current, a.entry.attempts⟩

def withPhase (a : Appointment δ) (phase : Phase) : Appointment δ :=
  { a with entry := { a.entry with phase } }

end Appointment

/-- All targets, and the number of the next scheduling. -/
structure Agenda (δ : Type u) where
  appointments : Table (Appointment δ)
  nextSerial : Nat
  deriving Repr, DecidableEq

namespace Agenda

variable {δ : Type u}

def empty : Agenda δ := ⟨.empty, 0⟩

def size (a : Agenda δ) : Nat := a.appointments.size

/-- The seconds that targets wait for. -/
def seconds (a : Agenda δ) : List Int := a.appointments.values.filterMap Appointment.second?

def bucketCount (a : Agenda δ) : Nat := a.seconds.eraseDups.length

def wakeDelay (a : Agenda δ) (now : Instant) : Option Duration :=
  a.seconds.min?.map fun second => delayUntil second now

/-- Hands out every target whose second has begun. -/
def drain (a : Agenda δ) (now : Instant) : List (Due δ) × Agenda δ :=
  let isDue := Appointment.isDueBy now.seconds
  let due := (a.appointments.values.filter isDue).mergeSort Appointment.precedes
  (due.map Appointment.due,
    { a with
      appointments := a.appointments.map fun _ x => if isDue x then x.withPhase .due else x })

/-- A change to the entry of a target, with an answer. -/
def change (a : Agenda δ) (key : String) (f : Appointment δ → Answer δ × Agenda δ) :
    Answer δ × Agenda δ :=
  match a.appointments.find? key with
  | none => (.refused (.unknownKey key), a)
  | some x => f x

/-- The agenda with another entry for a target. -/
def putEntry (a : Agenda δ) (x : Appointment δ) (entry : Entry δ) : Agenda δ :=
  { a with appointments := a.appointments.put entry.key { x with entry } }

/-- Notes the second that a target waits for, under the next number. -/
def scheduleAt (a : Agenda δ) (x : Appointment δ) (second : Int) : Agenda δ :=
  ⟨a.appointments.put x.entry.key
      { entry := { x.entry with phase := .scheduled second }, serial := a.nextSerial },
    a.nextSerial + 1⟩

/-- The agenda and the answer after an operation. -/
def apply (a : Agenda δ) : Operation δ → Answer δ × Agenda δ
  | .register key least greatest descriptor =>
    match a.appointments.find? key with
    | some _ => (.refused (.duplicateKey key), a)
    | none =>
      let fresh : Appointment δ := ⟨.create key least greatest descriptor, 0⟩
      (.done, { a with appointments := a.appointments.put key fresh })
  | .unregister key =>
    a.change key fun _ => (.done, { a with appointments := a.appointments.erase key })
  | .scheduleNext key start =>
    a.change key fun x =>
      let second := triggerSecond start x.entry.current
      (.trigger second, a.scheduleAt x second)
  | .drain now =>
    let (due, a) := a.drain now
    (.drained due, a)
  | .grow key => a.change key fun x => (.interval x.entry.grow.current, a.putEntry x x.entry.grow)
  | .reset key => a.change key fun x => (.done, a.putEntry x x.entry.reset)
  | .settle key productive =>
    a.change key fun x =>
      if x.entry.phase = .due then
        let adjusted := if productive then x.entry.reset else x.entry.grow
        (.settled true, a.putEntry x { adjusted with phase := .idle })
      else (.settled false, a)
  | .clear => (.done, empty)

end Agenda

end Schedule

end Intake
