/-
Module: Intake.Time.Duration
Purpose: Spans of time in whole nanoseconds, and their conversion from and to seconds as doubles.
Main exports: Duration, Duration.ofParts, Duration.toSeconds, Duration.InRange, Duration.ofSeconds?,
  Duration.text
-/
import Intake.Number.Natural
import Intake.Number.Binary64

namespace Intake

/-- A span of time that is not negative. -/
structure Duration where
  nanos : Nat
  deriving Repr, DecidableEq, Inhabited, Ord

namespace Duration

def nanosPerSecond : Nat := 1_000_000_000
def nanosPerMilli : Nat := 1_000_000

instance : LE Duration := ⟨fun a b => a.nanos ≤ b.nanos⟩
instance : LT Duration := ⟨fun a b => a.nanos < b.nanos⟩
instance (a b : Duration) : Decidable (a ≤ b) := inferInstanceAs (Decidable (a.nanos ≤ b.nanos))
instance (a b : Duration) : Decidable (a < b) := inferInstanceAs (Decidable (a.nanos < b.nanos))
instance : Max Duration := ⟨fun a b => if a ≤ b then b else a⟩
instance : Min Duration := ⟨fun a b => if a ≤ b then a else b⟩
instance : Add Duration := ⟨fun a b => ⟨a.nanos + b.nanos⟩⟩

def zero : Duration := ⟨0⟩
def ofParts (seconds nanos : Nat) : Duration := ⟨seconds * nanosPerSecond + nanos⟩
def ofSecs (seconds : Nat) : Duration := ⟨seconds * nanosPerSecond⟩
def ofMillis (millis : Nat) : Duration := ⟨millis * nanosPerMilli⟩

/-- The whole seconds of a span. -/
def wholeSeconds (d : Duration) : Nat := d.nanos / nanosPerSecond

/-- The nanoseconds beyond the whole seconds. -/
def subsecondNanos (d : Duration) : Nat := d.nanos % nanosPerSecond

/-- The whole milliseconds of a span. -/
def wholeMillis (d : Duration) : Nat := d.nanos / nanosPerMilli

/-- The seconds of a span as a double: whole seconds and the fraction are converted each on its own
and then added, so up to three roundings happen. -/
def toSeconds (d : Duration) : Binary64 :=
  .add (.ofNat d.wholeSeconds) (.div (.ofNat d.subsecondNanos) (.ofNat nanosPerSecond))

/-- One more than the greatest number of whole seconds that a span may hold. -/
def secondsLimit : Nat := 0x1_0000_0000_0000_0000

/-- The spans that a whole number of seconds of 64 binary digits and a fraction make up. -/
def InRange (d : Duration) : Prop := d.wholeSeconds < secondsLimit

instance (d : Duration) : Decidable d.InRange := inferInstanceAs (Decidable (_ < _))

/-- The span nearest to a number of seconds, a tie to the even nanosecond.  Negative numbers, numbers
of `2 ^ 64` seconds and more, infinities and NaN have none. -/
def ofSeconds? : Binary64 → Option Duration
  | .finite negative units =>
    if negative ∧ units ≠ 0 then none
    else if units < secondsLimit * Binary64.unitsPerOne then
      some ⟨roundHalfEven (units * nanosPerSecond) Binary64.unitsPerOne⟩
    else none
  | _ => none

/-- Seconds and nine places. -/
def text (d : Duration) : String := toString d.wholeSeconds ++ "." ++ padded 9 d.subsecondNanos

end Duration

end Intake
