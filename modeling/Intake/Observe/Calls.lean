/-
Module: Intake.Observe.Calls
Purpose: What a snapshot of the counters has to show after a history of calls.
Main exports: Metrics.Call, Metrics.recordEach, Metrics.sinceReset, Metrics.balance, Metrics.along,
  Metrics.keptTimes, Metrics.totalMillis, Metrics.Snapshot.Shows

Nothing is said here about how the counters are kept: `Shows` compares a snapshot with the calls alone, and with
earlier values of itself.
-/
import Mathlib.Order.Bounds.Basic
import Mathlib.Data.List.DropRight
import Intake.Observe.Metrics

namespace Intake

namespace Metrics

/-- An event, and the clock reading when it is recorded. -/
structure Call where
  now : Nat
  event : Event
  deriving Repr, DecidableEq

/-- The counters after calls in turn, whichever agents they come from. -/
def recordEach (m : Metrics) (calls : List Call) : Metrics :=
  calls.foldl (fun m call => m.record call.now call.event) m

/-- The calls after the last reset. -/
def sinceReset (calls : List Call) : List Call := calls.rtakeWhile fun call => call.event != .reset

def Snapshot.withoutClock (s : Snapshot) : Snapshot :=
  { s with uptime := 0, lastHealthCheck := 0, timestamp := 0 }

/-! ### Counters

Most counters are the number of times that one event has occurred. -/

def occurrences (e : Event) (calls : List Call) : Nat := (calls.map Call.event).count e

/-- The counter of an event; there is none of times and of what is set. -/
def Snapshot.counter? (s : Snapshot) : Event → Option Nat
  | .itemReceived => some s.itemsReceived
  | .itemCompleted => some s.itemsCompleted
  | .itemRecovered => some s.itemsRecovered
  | .itemFailed => some s.itemsFailed
  | .itemDelegated => some s.itemsDelegated
  | .exceptionRecorded => some s.exceptionsRecorded
  | .pollProductive => some s.pollsProductive
  | .pollEmpty => some s.pollsEmpty
  | .pollFailed => some s.pollsFailed
  | .connectionAccepted => some s.connectionsAccepted
  | .httpRequest => some s.httpRequests
  | .processed _ => none
  | .receiversRunning _ => none
  | .healthStatus _ => none
  | .reset => none

/-! ### Items in progress

The number of items in progress never falls below zero.  So it is not the balance itself but what the balance
has over its least value so far. -/

def finished (calls : List Call) : Nat :=
  occurrences .itemCompleted calls + occurrences .itemRecovered calls + occurrences .itemFailed calls +
    occurrences .itemDelegated calls

/-- Items received less items finished; below zero where calls finish what was never received. -/
def balance (calls : List Call) : Int := occurrences .itemReceived calls - finished calls

/-- The values of a quantity before the first call and after each of them. -/
def along {α : Type} (quantity : List Call → α) (calls : List Call) : Set α :=
  {value | ∃ first, first <+: calls ∧ quantity first = value}

def inFlightAfter (start : Nat) (calls : List Call) : Nat := ((fresh start).recordEach calls).itemsInFlight

/-! ### Times

Only the last times are kept, each in whole milliseconds. -/

def Event.time? : Event → Option Duration
  | .processed time => some time
  | _ => none

/-- The last recorded times, as many as the window holds. -/
def keptTimes (calls : List Call) : List Duration :=
  (calls.filterMap fun call => call.event.time?).rtake windowSize

/-- The sum of times in whole milliseconds. -/
def totalMillis (times : List Duration) : Nat := times.foldl (fun total time => total + time.wholeMillis) 0

/-! ### Snapshots

A snapshot has to show all of the above at once, for the calls since the collector was new. -/

/-- A snapshot shows calls that began with new counters. -/
structure Snapshot.Shows (s : Snapshot) (start : Nat) (calls : List Call) : Prop where
  counters : ∀ e n, s.counter? e = some n → n = occurrences e calls
  /-- Items in progress are the balance less its least value. -/
  inFlight : IsLeast (along balance calls) (balance calls - s.itemsInFlight)
  maxInFlight : IsGreatest (along (inFlightAfter start) calls) s.maxInFlight
  /-- Where every item that is finished has been received, no item is lost. -/
  conserved : (∀ first, first <+: calls → 0 ≤ balance first) →
    s.itemsReceived = s.itemsCompleted + s.itemsRecovered + s.itemsFailed + s.itemsDelegated + s.itemsInFlight
  timing : s.timing = .ofTimes ((keptTimes calls).map fun time => cut64 time.wholeMillis)
  /-- Times of less than 64 bits are kept as they are. -/
  exactTiming : (∀ time ∈ keptTimes calls, time.wholeMillis ≤ max64) →
    s.timing = .ofTimes ((keptTimes calls).map Duration.wholeMillis)
  /-- Where the sum of the times has 64 bits, the mean is the mean. -/
  mean : keptTimes calls ≠ [] → totalMillis (keptTimes calls) ≤ max64 →
    s.timing.mean = .div (.ofNat (totalMillis (keptTimes calls))) (.ofNat (keptTimes calls).length)
  /-- No number has more than 64 bits as long as the number of calls has not. -/
  fits : (∀ e n, s.counter? e = some n → n ≤ calls.length) ∧ s.itemsInFlight ≤ s.maxInFlight ∧
    s.maxInFlight ≤ calls.length

end Metrics

end Intake
