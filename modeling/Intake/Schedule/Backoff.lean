/-
Module: Intake.Schedule.Backoff
Purpose: How the interval of an unproductive target grows, and the bounds that it stays within.
Main exports: Backoff.growthFactor, Backoff.floor, Backoff.clampBounds, Backoff.next, Backoff.grown
-/
import Intake.Time.Duration

namespace Intake

namespace Backoff

/-- The factor by which each unproductive poll lengthens the interval. -/
def growthFactor : Binary64 := .ofRatio false 7 4

/-- The least interval of any target. -/
def floor : Duration := .ofSecs 1

/-- Bounds in order: the lower one at least the floor, the upper one at least the lower one. -/
def clampBounds (least greatest : Duration) : Duration × Duration :=
  let least := max least floor
  (least, max greatest least)

/-- The greatest attempt number, and the greatest exponent that a power is taken with. -/
def greatestAttempt : Nat := max32
def greatestExponent : Nat := 0x7fff_ffff

/-- The seconds that follow `attempts` growth steps, `least * 1.75 ^ (attempts + 1)`. -/
def nextSeconds (least : Duration) (attempts : Nat) : Binary64 :=
  let attempt := min (attempts + 1) greatestAttempt
  .mul least.toSeconds (.pow growthFactor (min attempt greatestExponent))

/-- The interval and the attempt number after one growth step.  At the upper bound both stay; a
number of seconds below that bound is always a span of time, so the last case does not arise. -/
def next (least greatest : Duration) (attempts : Nat) : Duration × Nat :=
  let seconds := nextSeconds least attempts
  if !seconds.isFinite || Binary64.le greatest.toSeconds seconds then (greatest, attempts)
  else
    match Duration.ofSeconds? seconds with
    | some interval => (interval, min (attempts + 1) greatestAttempt)
    | none => (greatest, attempts)

/-- The interval and the attempt number that a number of growth steps lead to. -/
def grown (least greatest : Duration) : Nat → Duration × Nat
  | 0 => (least, 0)
  | steps + 1 => next least greatest (grown least greatest steps).2

@[simp] theorem grown_zero (least greatest : Duration) : grown least greatest 0 = (least, 0) := rfl

theorem grown_succ (least greatest : Duration) (steps : Nat) :
    grown least greatest (steps + 1) = next least greatest (grown least greatest steps).2 := rfl

example : next (.ofSecs 1) (.ofSecs 10) 0 = (⟨1750000000⟩, 1) := by decide +kernel

end Backoff

end Intake
