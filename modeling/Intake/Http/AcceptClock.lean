/-
Module: Intake.Http.AcceptClock
Purpose: The accept loop along a clock on which connections arrive and are served for a given time.
Main exports: Http.AcceptLoop.Plan, Http.AcceptLoop.Plan.seenAt, Http.AcceptLoop.Plan.closedAt?,
  Http.AcceptLoop.attemptsBy?
-/
import Intake.Http.Accept

namespace Intake

namespace Http.AcceptLoop

/-- When connections arrive, how long each is served, when the loop is cancelled, and how long it then
waits for its connections, all in milliseconds. -/
structure Plan where
  maxAccepts : Nat
  arrivals : List Nat
  hold : Nat
  cancelAt : Nat
  drain : Nat
  deriving Repr, DecidableEq

namespace Plan

def timing (p : Plan) : Timing := ⟨.ofMillis p.drain, standardPause⟩

/-- The moves that serve connections.  The loop takes a connection as soon as it is there, and waits for
the next one at once; it closes as soon as it can. -/
def servingMoves (p : Plan) : List (Nat × List (Move Unit)) :=
  (0, [Move.acquire]) :: p.arrivals.zipIdx.flatMap fun (time, i) =>
    [(time, [Move.accept (.connected ⟨(), ""⟩), .next, .acquire]),
      (time + p.hold, [Move.finish i .finished, .join i, .close])]

/-- A move for each connection. -/
def each (p : Plan) (move : Nat → Move Unit) : List (Move Unit) :=
  (List.range p.arrivals.length).map move

/-- The moves that end the loop. -/
def endingMoves (p : Plan) : List (Nat × List (Move Unit)) :=
  [(p.cancelAt, [.cancel, .stop] ++ p.each .join ++ [.close]),
    (p.cancelAt + p.drain, [.expire] ++ p.each (.finish · .aborted) ++ p.each .join ++ [.close])]

/-- The loop once the clock shows a time. -/
def reach (l : AcceptLoop) (millis : Nat) : AcceptLoop :=
  { l with now := (Duration.ofMillis millis).nanos }

/-- The loop after moves in the order of time, up to a time. -/
def runUntil (p : Plan) (time : Nat) (moves : List (Nat × List (Move Unit))) : AcceptLoop :=
  ((moves.filter fun m => m.1 ≤ time).mergeSort fun a b => decide (a.1 ≤ b.1)).foldl
    (fun l m => (reach l m.1).runMoves p.timing m.2) (Run.start p.maxAccepts)

def moves (p : Plan) : List (Nat × List (Move Unit)) := p.servingMoves ++ p.endingMoves

/-- The loop as it is seen at a time; at the time of the cancellation it is seen before it. -/
def seenAt (p : Plan) (time : Nat) : AcceptLoop :=
  p.runUntil time (if time ≤ p.cancelAt then p.servingMoves else p.moves)

/-- The time at which the loop returned. -/
def closedAt? (p : Plan) : Option Nat :=
  ((p.moves.map Prod.fst).filter fun time => (p.runUntil time p.moves).isOver).min?

/-- The loop in the end. -/
def final (p : Plan) : AcceptLoop :=
  p.runUntil (((p.moves.map Prod.fst).max?).getD 0) p.moves

end Plan

/-- The moves of an accept that fails, with the pause that belongs to it. -/
def failingRound (error : AcceptError) (pause : Duration) : List (Move Unit) :=
  [.acquire, .accept (.failed error), .pass pause.nanos, .resume, .next]

/-- The loop after a number of accepts that all fail in one way. -/
def failingRounds (error : AcceptError) (pause : Duration) (count : Nat) : AcceptLoop :=
  (Run.start 1).runMoves ⟨standardDrain, pause⟩
    (List.replicate count (failingRound error pause)).flatten

/-- How many accepts that all fail in one way are tried before a time, in milliseconds.  Without a pause
between them there is no limit. -/
def attemptsBy? (error : AcceptError) (pause time : Nat) : Option Nat :=
  if error.concernsConnection ∨ pause = 0 then none
  else some (failingRounds error (.ofMillis pause) ((time + pause - 1) / pause)).attempts

end Http.AcceptLoop

end Intake
