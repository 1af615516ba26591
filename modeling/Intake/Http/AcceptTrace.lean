/-
Module: Intake.Http.AcceptTrace
Purpose: What the trace of an accept loop tells.
Main exports: Http.AcceptLoop.doings, Http.AcceptLoop.ownEvents, Http.AcceptLoop.Round,
  Http.AcceptLoop.Rounds, Http.AcceptLoop.Cut, Http.AcceptLoop.Closing, Http.AcceptLoop.Run.Accounted,
  Http.AcceptLoop.Run.GoesOn

What the loop itself does is a sequence of rounds, one for each accept, and each result has a round of its
own shape.  Tasks go on beside it.  The round in which the loop stops may be cut short.
-/
import Intake.Http.Accept

namespace Intake

namespace Http.AcceptLoop

variable {κ : Type}

/-! ### The loop itself

The course of the loop is a sequence of rounds, one for each accept that came to its end.  A stop may cut the
last one short at any of its points. -/

/-- Whether the loop itself does something.  The end of a task, and that the loop takes note of it, have no
place in its course. -/
def Event.isDoing : Event κ → Bool
  | .ended .. => false
  | .joined _ => false
  | _ => true

/-- What the loop itself did, and when. -/
def doings (trace : List (Nat × Event κ)) : List (Nat × Event κ) := trace.filter (·.2.isDoing)

/-- The connections among the results of accepts. -/
def accepted (results : List (AcceptEnd κ)) : List (Connection κ) :=
  results.filterMap fun
    | .connected connection => some connection
    | .failed _ => none

/-- A round: an accept, and what the loop does about its result before it tries again.  A connection is
counted and handed to the task at a place.  After an error that concerns a connection there is nothing to
do; after any other there is one pause. -/
inductive Round (timing : Timing) (place : Nat) : AcceptEnd κ → List (Nat × Event κ) → Prop where
  | connected (connection : Connection κ) (tried got : Nat) :
      Round timing place (.connected connection)
        [(tried, .attempted), (got, .yielded (.connected connection)),
          (got, .counted .connectionAccepted), (got, .handed place connection)]
  | connectionError (error : AcceptError) (tried got : Nat) (passing : error.concernsConnection = true) :
      Round timing place (.failed error) [(tried, .attempted), (got, .yielded (.failed error))]
  | listenerError (error : AcceptError) (tried got again : Nat)
      (lasting : error.concernsConnection = false) (long : got + timing.pause.nanos ≤ again) :
      Round timing place (.failed error)
        [(tried, .attempted), (got, .yielded (.failed error)), (got, .paused), (again, .resumed)]

/-- The rounds of a sequence of results.  A connection gets the place behind the ones before it. -/
inductive Rounds (timing : Timing) : List (AcceptEnd κ) → List (Nat × Event κ) → Prop where
  | none : Rounds timing [] []
  | next {results : List (AcceptEnd κ)} {result : AcceptEnd κ} {before round : List (Nat × Event κ)}
      (earlier : Rounds timing results before)
      (last : Round timing (accepted results).length result round) :
      Rounds timing (results ++ [result]) (before ++ round)

/-- What is left of a round that the loop did not bring to its end: it stopped while it waited for a permit,
for a connection, or for the end of a pause. -/
inductive Cut : List (AcceptEnd κ) → List (Nat × Event κ) → Prop where
  | acquiring : Cut [] []
  | accepting (tried : Nat) : Cut [] [(tried, .attempted)]
  | pausing (error : AcceptError) (tried got : Nat) (lasting : error.concernsConnection = false) :
      Cut [.failed error] [(tried, .attempted), (got, .yielded (.failed error)), (got, .paused)]

/-- What the loop does once it has stopped: it returns without an error, at once or after it has waited in
vain for as long as it may. -/
inductive Closing (timing : Timing) (stop : Nat) : List (Nat × Event κ) → Prop where
  | drained (back : Nat) : Closing timing stop [(back, .returned none)]
  | expired (expiry back : Nat) (late : stop + timing.drain.nanos ≤ expiry) :
      Closing timing stop [(expiry, .expired), (back, .returned none)]

/-- The course of a loop that has stopped: rounds, a round that was cut short, and what came after. -/
def Stopped (timing : Timing) (trace : List (Nat × Event κ)) (stop : Nat)
    (after : List (Nat × Event κ)) : Prop :=
  ∃ results rounds cut unfinished, Rounds timing results rounds ∧ Cut cut unfinished ∧
    yields trace = results ++ cut ∧
    doings trace = rounds ++ unfinished ++ (stop, .stopped) :: after

/-! ### The tasks

Every connection has a task of its own, which goes on beside the loop and is told of in the same trace. -/

/-- The task that an event concerns. -/
def Event.place? : Event κ → Option Nat
  | .handed place _ => some place
  | .ended place _ => some place
  | .joined place => some place
  | _ => none

/-- What happened to the task at a place. -/
def ownEvents (place : Nat) (trace : List (Nat × Event κ)) : List (Event κ) :=
  (trace.map Prod.snd).filter (·.place? = some place)

namespace Run

/-- What there is to say about a run that has returned. -/
structure Accounted (timing : Timing) (maxAccepts : Nat) (r : Run κ) : Prop where
  /-- It returned because it was cancelled, and without an error. -/
  cancelled : r.cancelled = true
  returned : r.phase = .returned none
  /-- It went through one round for each result. -/
  course : ∃ stop closing, Stopped timing r.trace stop closing ∧ Closing timing stop closing
  /-- Each connection that an accept yielded has its task, and nothing else has one. -/
  handed : r.connections.map (·.connection) = accepted (yields r.trace)
  /-- Exactly these are counted. -/
  metrics : ∀ (m : Metrics) (now : Nat), m.recordAll now r.counted =
    { m with connectionsAccepted := m.connectionsAccepted + (accepted (yields r.trace)).length }
  /-- Each task was started once, ended once, and was taken note of once. -/
  tasks : ∀ place task, r.connections[place]? = some task → ∃ result, task.stage = .joined result ∧
    ownEvents place r.trace =
      [.handed place task.connection, .ended place result, .joined place]
  noOthers : ∀ place, r.connections.length ≤ place → ownEvents place r.trace = []
  /-- A task was aborted only if it had gone on for as long as it might once the loop had stopped. -/
  overdue : ∀ moment place, (moment, .ended place .aborted) ∈ r.trace →
    ∃ stop, (stop, .stopped) ∈ r.trace ∧ stop + timing.drain.nanos ≤ moment
  /-- All permits are free again. -/
  permits : r.semaphore = ⟨AcceptLoop.permits maxAccepts, false⟩
  /-- Time does not run back, and nothing happens after the return. -/
  inOrder : (r.trace.map Prod.fst).Pairwise (· ≤ ·)
  last : ∃ before moment, r.trace = before ++ [(moment, .returned none)]

/-- Whether the loop has not stopped. -/
def isLooping (r : Run κ) : Bool :=
  match r.phase with
  | .acquiring => true
  | .accepting => true
  | .pausing _ => true
  | .reaping => true
  | _ => false

/-- When the loop can try to accept: at once, unless it pauses. -/
def readyAt (r : Run κ) : Nat :=
  match r.phase with
  | .pausing deadline => max r.now deadline
  | _ => r.now

/-- Whether moves leave the loop uncancelled. -/
def Undisturbed (moves : List (Move κ)) : Prop := .cancel ∉ moves ∧ .stop ∉ moves

/-- What can become of a run. -/
structure GoesOn (timing : Timing) (r : Run κ) : Prop where
  /-- A loop that has not stopped can try again, and waits for nothing but the end of a pause. -/
  tries : r.isLooping = true → ∃ more next, Undisturbed more ∧ r.run? timing more = some next ∧
    next.phase = .accepting ∧ next.now = r.readyAt ∧ yields next.trace = yields r.trace
  /-- It goes on whatever its accepts come to. -/
  anyResults : r.isLooping = true → ∀ results, ∃ more next, Undisturbed more ∧
    r.run? timing more = some next ∧ next.isLooping = true ∧
    yields next.trace = yields r.trace ++ results
  /-- It can be brought to its end. -/
  ends : ∃ more last, r.run? timing more = some last ∧ last.isOver = true

end Run

end Http.AcceptLoop

end Intake
