/-
Module: Intake.Time.Instant
Purpose: Points in time, counted in nanoseconds from the start of 1970 in either direction.
Main exports: Instant, Instant.ofParts, Instant.seconds, Instant.millis, clampSigned64,
  Instant.minusMillis?
-/
import Intake.Time.Duration

namespace Intake

/-- A point in time, as nanoseconds since the start of 1970, negative before it. -/
structure Instant where
  nanos : Int
  deriving Repr, DecidableEq, Inhabited

namespace Instant

instance : LE Instant := ⟨fun a b => a.nanos ≤ b.nanos⟩
instance (a b : Instant) : Decidable (a ≤ b) := inferInstanceAs (Decidable (a.nanos ≤ b.nanos))

def ofParts (seconds nanos : Int) : Instant := ⟨seconds * 1_000_000_000 + nanos⟩

/-- The whole second that an instant lies in. -/
def seconds (t : Instant) : Int := t.nanos.fdiv 1_000_000_000

/-- The whole millisecond that an instant lies in. -/
def millis (t : Instant) : Int := t.nanos.fdiv 1_000_000

end Instant

def leastSigned64 : Int := -0x8000_0000_0000_0000
def greatestSigned64 : Int := 0x7fff_ffff_ffff_ffff

/-- The nearest number that a signed word of 64 binary digits holds. -/
def clampSigned64 (n : Int) : Int := max leastSigned64 (min greatestSigned64 n)

namespace Instant

/-- The first second of the calendar, in the year -262143, and the first one behind it, after the
year 262142. -/
def calendarStart : Int := -8334601315200
def calendarEnd : Int := 8210266876800

def inCalendar (t : Instant) : Prop := calendarStart ≤ t.seconds ∧ t.seconds < calendarEnd

instance (t : Instant) : Decidable t.inCalendar := inferInstanceAs (Decidable (_ ∧ _))

/-- The instant that lies a number of milliseconds before another.  The number is cut to a signed word
of 64 binary digits; the least word is no span of time, and the instant must lie in the calendar. -/
def minusMillis? (t : Instant) (millis : Nat) : Option Instant :=
  let word := (millis : Int).bmod 0x1_0000_0000_0000_0000
  let earlier : Instant := ⟨t.nanos - word * 1_000_000⟩
  if word ≠ leastSigned64 ∧ earlier.inCalendar then some earlier else none

end Instant

end Intake
