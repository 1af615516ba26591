/-
Module: Intake.Observe.Metrics
Purpose: Counters of what the intake does, and a window of processing times.
Main exports: Metrics.Event, Metrics, Metrics.record, Metrics.percentile, Metrics.Timing,
  Metrics.timing, Metrics.Snapshot, Metrics.snapshot, Metrics.toJson

The state after any history is the fold of `record` over its events.  Clock readings come with the
events, in seconds.  Fewer than `2 ^ 64` events do not fill counters of 64 bits, which are plain numbers
here; times and their sum may be too large for 64 bits, and are cut.
-/
import Intake.Time.Duration
import Intake.Json.Basic

namespace Intake

/-- Something that is counted. -/
inductive Metrics.Event where
  | itemReceived
  | itemCompleted
  | itemRecovered
  | itemFailed
  | itemDelegated
  | exceptionRecorded
  | processed (time : Duration)
  | pollProductive
  | pollEmpty
  | pollFailed
  | connectionAccepted
  | httpRequest
  | receiversRunning (count : Nat)
  | healthStatus (healthy : Bool)
  | reset
  deriving Repr, DecidableEq

/-- The events that carry nothing, by name. -/
def Metrics.Event.named : List (String × Metrics.Event) := [
  ("item_received", .itemReceived),
  ("item_completed", .itemCompleted),
  ("item_recovered", .itemRecovered),
  ("item_failed", .itemFailed),
  ("item_delegated", .itemDelegated),
  ("exception_recorded", .exceptionRecorded),
  ("poll_productive", .pollProductive),
  ("poll_empty", .pollEmpty),
  ("poll_failed", .pollFailed),
  ("connection_accepted", .connectionAccepted),
  ("http_request", .httpRequest),
  ("reset", .reset)]

def Metrics.Event.ofName? (name : String) : Option Metrics.Event := Table.lookup? name named

/-- The counters.  `times` holds the last processing times in milliseconds, oldest first. -/
structure Metrics where
  itemsReceived : Nat
  itemsInFlight : Nat
  itemsCompleted : Nat
  itemsRecovered : Nat
  itemsFailed : Nat
  itemsDelegated : Nat
  exceptionsRecorded : Nat
  maxInFlight : Nat
  pollsProductive : Nat
  pollsEmpty : Nat
  pollsFailed : Nat
  connectionsAccepted : Nat
  httpRequests : Nat
  times : List Nat
  receiversRunning : Nat
  healthy : Bool
  startedAt : Nat
  lastHealthCheck : Nat
  deriving Repr, DecidableEq

namespace Metrics

/-- How many processing times are kept. -/
def windowSize : Nat := 1000

/-- Nothing counted since `now`. -/
def fresh (now : Nat) : Metrics where
  itemsReceived := 0
  itemsInFlight := 0
  itemsCompleted := 0
  itemsRecovered := 0
  itemsFailed := 0
  itemsDelegated := 0
  exceptionsRecorded := 0
  maxInFlight := 0
  pollsProductive := 0
  pollsEmpty := 0
  pollsFailed := 0
  connectionsAccepted := 0
  httpRequests := 0
  times := []
  receiversRunning := 0
  healthy := true
  startedAt := now
  lastHealthCheck := now

/-- One item less in progress; below zero it stays at zero. -/
def finishItem (m : Metrics) : Metrics := { m with itemsInFlight := m.itemsInFlight - 1 }

/-- A number of milliseconds as it is kept, in 64 bits. -/
def cut64 (n : Nat) : Nat := n % (max64 + 1)

/-- A time added to the window; the oldest goes where it would grow too long. -/
def pushTime (times : List Nat) (millis : Nat) : List Nat :=
  let grown := times ++ [millis]
  if windowSize < grown.length then grown.drop 1 else grown

/-- Every field is set anew, one after another. -/
def reset (m : Metrics) (now : Nat) : Metrics :=
  { m with
    itemsReceived := 0
    itemsInFlight := 0
    itemsCompleted := 0
    itemsRecovered := 0
    itemsFailed := 0
    itemsDelegated := 0
    exceptionsRecorded := 0
    maxInFlight := 0
    pollsProductive := 0
    pollsEmpty := 0
    pollsFailed := 0
    connectionsAccepted := 0
    httpRequests := 0
    receiversRunning := 0
    startedAt := now
    healthy := true
    lastHealthCheck := now
    times := [] }

/-- The counters after an event at `now`. -/
def record (m : Metrics) (now : Nat) : Event → Metrics
  | .itemReceived =>
    let inFlight := m.itemsInFlight + 1
    { m with
      itemsReceived := m.itemsReceived + 1
      itemsInFlight := inFlight
      maxInFlight := max m.maxInFlight inFlight }
  | .itemCompleted => { m with itemsCompleted := m.itemsCompleted + 1 }.finishItem
  | .itemRecovered => { m with itemsRecovered := m.itemsRecovered + 1 }.finishItem
  | .itemFailed => { m with itemsFailed := m.itemsFailed + 1 }.finishItem
  | .itemDelegated => { m with itemsDelegated := m.itemsDelegated + 1 }.finishItem
  | .exceptionRecorded => { m with exceptionsRecorded := m.exceptionsRecorded + 1 }
  | .processed time => { m with times := pushTime m.times (cut64 time.wholeMillis) }
  | .pollProductive => { m with pollsProductive := m.pollsProductive + 1 }
  | .pollEmpty => { m with pollsEmpty := m.pollsEmpty + 1 }
  | .pollFailed => { m with pollsFailed := m.pollsFailed + 1 }
  | .connectionAccepted => { m with connectionsAccepted := m.connectionsAccepted + 1 }
  | .httpRequest => { m with httpRequests := m.httpRequests + 1 }
  | .receiversRunning count => { m with receiversRunning := count }
  | .healthStatus healthy => { m with healthy, lastHealthCheck := now }
  | .reset => m.reset now

/-- The counters after events that all happen at `now`. -/
def recordAll (m : Metrics) (now : Nat) (events : List Event) : Metrics :=
  events.foldl (fun m e => m.record now e) m

/-! ### Processing times -/

/-- A percentile of times in ascending order: the time at the place `percent / 100` of the way through,
or between its two neighbours in proportion, computed in doubles. -/
def percentile (sorted : List Nat) (percent : Nat) : Binary64 :=
  let place := Binary64.mul (.div (.ofNat percent) (.ofNat 100)) (.ofNat (sorted.length - 1))
  let at_ (i : Nat) : Binary64 := .ofNat (sorted.getD i 0)
  if sorted = [] then .zero
  else if place.isWhole then at_ place.floorNat
  else
    let lower := at_ place.floorNat
    let upper := at_ place.ceilNat
    .add lower (.mul (.sub upper lower) place.fraction)

/-- The mean and three percentiles of the window. -/
structure Timing where
  mean : Binary64
  p50 : Binary64
  p95 : Binary64
  p99 : Binary64
  deriving Repr, DecidableEq

/-- Without any time, all are zero.  The sum has 64 bits. -/
def Timing.ofTimes (times : List Nat) : Timing :=
  let sorted := times.mergeSort
  if sorted = [] then ⟨.zero, .zero, .zero, .zero⟩
  else
    { mean := .div (.ofNat (cut64 (sorted.foldl (· + ·) 0))) (.ofNat sorted.length)
      p50 := percentile sorted 50
      p95 := percentile sorted 95
      p99 := percentile sorted 99 }

def timing (m : Metrics) : Timing := .ofTimes m.times

/-! ### The report -/

/-- What is reported of the counters. -/
structure Snapshot where
  itemsReceived : Nat
  itemsInFlight : Nat
  itemsCompleted : Nat
  itemsRecovered : Nat
  itemsFailed : Nat
  itemsDelegated : Nat
  exceptionsRecorded : Nat
  maxInFlight : Nat
  timing : Timing
  pollsProductive : Nat
  pollsEmpty : Nat
  pollsFailed : Nat
  connectionsAccepted : Nat
  httpRequests : Nat
  receiversRunning : Nat
  uptime : Nat
  healthy : Bool
  lastHealthCheck : Nat
  timestamp : Nat
  deriving Repr, DecidableEq

def snapshot (m : Metrics) (now : Nat) : Snapshot where
  itemsReceived := m.itemsReceived
  itemsInFlight := m.itemsInFlight
  itemsCompleted := m.itemsCompleted
  itemsRecovered := m.itemsRecovered
  itemsFailed := m.itemsFailed
  itemsDelegated := m.itemsDelegated
  exceptionsRecorded := m.exceptionsRecorded
  maxInFlight := m.maxInFlight
  timing := m.timing
  pollsProductive := m.pollsProductive
  pollsEmpty := m.pollsEmpty
  pollsFailed := m.pollsFailed
  connectionsAccepted := m.connectionsAccepted
  httpRequests := m.httpRequests
  receiversRunning := m.receiversRunning
  uptime := now - m.startedAt
  healthy := m.healthy
  lastHealthCheck := m.lastHealthCheck
  timestamp := now

def Snapshot.toJson (s : Snapshot) : Json :=
  .ofFields [
    ("items", .ofFields [
      ("items_received", .ofNat s.itemsReceived),
      ("items_in_flight", .ofNat s.itemsInFlight),
      ("items_completed", .ofNat s.itemsCompleted),
      ("items_recovered", .ofNat s.itemsRecovered),
      ("items_failed", .ofNat s.itemsFailed),
      ("items_delegated", .ofNat s.itemsDelegated),
      ("exceptions_recorded", .ofNat s.exceptionsRecorded),
      ("max_in_flight_reached", .ofNat s.maxInFlight),
      ("avg_processing_time_ms", .ofDouble s.timing.mean),
      ("processing_time_p50_ms", .ofDouble s.timing.p50),
      ("processing_time_p95_ms", .ofDouble s.timing.p95),
      ("processing_time_p99_ms", .ofDouble s.timing.p99)]),
    ("polling", .ofFields [
      ("polls_productive", .ofNat s.pollsProductive),
      ("polls_empty", .ofNat s.pollsEmpty),
      ("polls_failed", .ofNat s.pollsFailed)]),
    ("http", .ofFields [
      ("connections_accepted", .ofNat s.connectionsAccepted),
      ("requests", .ofNat s.httpRequests)]),
    ("lifecycle", .ofFields [
      ("receivers_running", .ofNat s.receiversRunning),
      ("uptime_seconds", .ofNat s.uptime),
      ("healthy", .bool s.healthy),
      ("last_health_check", .ofNat s.lastHealthCheck)]),
    ("timestamp", .ofNat s.timestamp)]

/-- The counters as a JSON object at `now`. -/
def toJson (m : Metrics) (now : Nat) : Json := (m.snapshot now).toJson

end Metrics

end Intake
