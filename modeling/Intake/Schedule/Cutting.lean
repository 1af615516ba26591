/-
Module: Intake.Schedule.Cutting
Purpose: The instant at which an interval ends, and what is lost of it where both operands are cut.
Main exports: Instant.after, Instant.before, Instant.InMillis, Schedule.cutMillis, Schedule.lostNanos, Schedule.CarriesOver

A target waits for the second in which its interval ends.  The beginning and the interval are cut to
milliseconds before they are added, and what is lost that way can make up a millisecond, and with it a second.
-/
import Intake.Schedule.Scheduler

namespace Intake

namespace Instant

/-- The instant a span of time behind another. -/
def after (t : Instant) (d : Duration) : Instant := ⟨t.nanos + d.nanos⟩

/-- The instant a number of milliseconds before another, in the calendar or not. -/
def before (t : Instant) (millis : Nat) : Instant := ⟨t.nanos - millis * 1_000_000⟩

@[simp] theorem nanos_after (t : Instant) (d : Duration) : (t.after d).nanos = t.nanos + d.nanos := rfl

theorem nanos_before (t : Instant) (millis : Nat) :
    (t.before millis).nanos = t.nanos - millis * 1_000_000 := rfl

/-- Whether a signed word of 64 binary digits holds the milliseconds of an instant. -/
def InMillis (t : Instant) : Prop := leastSigned64 ≤ t.millis ∧ t.millis ≤ greatestSigned64

instance (t : Instant) : Decidable t.InMillis := inferInstanceAs (Decidable (_ ∧ _))

end Instant

namespace Schedule

/-- The sum of the milliseconds of an instant and of an interval, of which a word holds no more than its
greatest number. -/
def cutMillis (start : Instant) (interval : Duration) : Int :=
  start.millis + min (interval.wholeMillis : Int) greatestSigned64

/-- What that sum lacks of the instant at which the interval ends. -/
def lostNanos (start : Instant) (interval : Duration) : Int :=
  (start.after interval).nanos - cutMillis start interval * 1_000_000

/-- Whether what is lost reaches from that sum into the next second. -/
def CarriesOver (start : Instant) (interval : Duration) : Prop :=
  1_000_000_000 ≤ cutMillis start interval % 1000 * 1_000_000 + lostNanos start interval

instance (start : Instant) (interval : Duration) : Decidable (CarriesOver start interval) :=
  inferInstanceAs (Decidable (_ ≤ _))

/-- The second that is waited for is that of the sum, unless no word holds it. -/
theorem triggerSecond_eq (start : Instant) (interval : Duration) :
    triggerSecond start interval = (clampSigned64 (cutMillis start interval)).fdiv 1000 := rfl

example : CarriesOver ⟨999_999_999⟩ ⟨1_000_999_999⟩ := by decide

example : ¬ CarriesOver ⟨999_999_999⟩ ⟨1_999_999_999⟩ := by decide

end Schedule

end Intake
