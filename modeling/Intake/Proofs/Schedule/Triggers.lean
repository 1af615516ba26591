/-
Module: Intake.Proofs.Schedule.Triggers
Purpose: How far the second that a target waits for lies from the instant at which its interval ends.
Main exports: Schedule.triggerSecond_le, Schedule.triggerSecond_eq_iff, Schedule.after_le_trigger,
  Schedule.trigger_exact_unless_carried

The second is never too late.  It is the right one unless what is cut away from both operands carries over
into the next second, and then it is the one before, as long as a word holds the interval.
-/
import Mathlib.Tactic.Linarith
import Intake.Schedule.Cutting
import Intake.Proofs.Schedule.Draining

namespace Intake

namespace Schedule

variable {δ : Type u} {start : Instant} {interval : Duration}

/-! ### Cutting

The instant and the interval are cut to milliseconds before they are added.  What is lost is less than two
milliseconds, and matters only if it carries the sum into the next second. -/

/-- An instant lies less than a millisecond behind its whole milliseconds. -/
theorem millis_bounds (t : Instant) :
    t.millis * 1_000_000 ≤ t.nanos ∧ t.nanos < t.millis * 1_000_000 + 1_000_000 := by
  rw [Instant.millis, Int.fdiv_eq_ediv_of_nonneg _ (by decide)]
  omega

/-- An instant is in a second from its beginning up to the next one. -/
theorem seconds_eq_iff (t : Instant) (second : Int) :
    t.seconds = second ↔
      second * 1_000_000_000 ≤ t.nanos ∧ t.nanos < second * 1_000_000_000 + 1_000_000_000 := by
  rw [Instant.seconds, Int.fdiv_eq_ediv_of_nonneg _ (by decide)]
  omega

/-- A span is less than a millisecond longer than its whole milliseconds. -/
theorem wholeMillis_bounds (d : Duration) :
    d.wholeMillis * 1_000_000 ≤ d.nanos ∧ d.nanos < d.wholeMillis * 1_000_000 + 1_000_000 := by
  rw [Duration.wholeMillis, Duration.nanosPerMilli]
  omega

/-- Nothing is gained by cutting. -/
theorem lostNanos_nonneg (start : Instant) (interval : Duration) : 0 ≤ lostNanos start interval := by
  have beginning := (millis_bounds start).1
  have length := (wholeMillis_bounds interval).1
  rw [lostNanos, cutMillis, Instant.nanos_after]
  omega

/-- Less than two milliseconds are lost where a word holds the interval. -/
theorem lostNanos_le (start : Instant) (short : interval.wholeMillis ≤ maxSigned64) :
    lostNanos start interval ≤ 1_999_998 := by
  have beginning := (millis_bounds start).2
  have length := (wholeMillis_bounds interval).2
  have whole : min (interval.wholeMillis : Int) greatestSigned64 = interval.wholeMillis := by
    rw [maxSigned64] at short
    rw [greatestSigned64]
    omega
  rw [lostNanos, cutMillis, Instant.nanos_after, whole]
  omega

/-- The instant at which an interval ends, as the sum of what is kept and what is lost. -/
theorem nanos_after_eq (start : Instant) (interval : Duration) :
    (start.after interval).nanos =
      cutMillis start interval * 1_000_000 + lostNanos start interval := by
  rw [lostNanos]
  omega

/-! ### The second that is waited for

The second of the sum is compared with the one in which the interval ends, and with the instant itself. -/

/-- A word holds the sum wherever it holds the exact one. -/
theorem triggerSecond_of_inMillis (known : start.inCalendar) (fits : (start.after interval).InMillis) :
    triggerSecond start interval = cutMillis start interval / 1000 := by
  have low : leastSigned64 ≤ cutMillis start interval := by
    have first := known.1
    have begun := (millis_bounds start).2
    rw [Instant.seconds, Int.fdiv_eq_ediv_of_nonneg _ (by decide), Instant.calendarStart] at first
    rw [cutMillis, leastSigned64, greatestSigned64]
    omega
  have high : cutMillis start interval ≤ greatestSigned64 := by
    have exact := (millis_bounds (start.after interval)).2
    have last := fits.2
    have lost := lostNanos_nonneg start interval
    have whole := nanos_after_eq start interval
    omega
  rw [triggerSecond_eq, Int.fdiv_eq_ediv_of_nonneg _ (by decide), clampSigned64, min_eq_right high,
    max_eq_right low]

section

variable (known : start.inCalendar) (fits : (start.after interval).InMillis)

include known fits

/-- The second has begun when the interval ends. -/
theorem triggerSecond_le :
    triggerSecond start interval * 1_000_000_000 ≤ (start.after interval).nanos := by
  have lost := lostNanos_nonneg start interval
  rw [triggerSecond_of_inMillis known fits, nanos_after_eq]
  omega

/-- The second is the one in which the interval ends, unless what is lost carries over. -/
theorem triggerSecond_eq_iff :
    triggerSecond start interval = (start.after interval).seconds ↔ ¬ CarriesOver start interval := by
  have lost := lostNanos_nonneg start interval
  rw [eq_comm, seconds_eq_iff, triggerSecond_of_inMillis known fits, nanos_after_eq, CarriesOver]
  omega

/-- The interval ends less than a second and a millisecond behind the beginning of that second. -/
theorem after_le_trigger (short : interval.wholeMillis ≤ maxSigned64) :
    (start.after interval).nanos ≤ triggerSecond start interval * 1_000_000_000 + 1_000_999_998 := by
  have lost := lostNanos_le start short
  rw [triggerSecond_of_inMillis known fits, nanos_after_eq]
  omega

end

/-! ### Scheduling

The second that is computed is the one that the target is put down for, and no drain hands it out earlier. -/

namespace Scheduler

variable {s : Scheduler δ} {key : String} {e : Entry δ}

/-- A registered target is put down for the second in which its interval ends, as far as that is known. -/
theorem scheduleNext_of_found (found : s.entry? key = some e) (start : Instant) :
    ∃ next, s.scheduleNext key start = .ok (triggerSecond start e.current, next) ∧
      next.Waits key (triggerSecond start e.current) := by
  refine ⟨_, by rw [scheduleNext, found], ?_⟩
  rw [waits_iff, entry?_put, if_pos rfl]
  exact ⟨_, rfl, rfl⟩

/-- A drain hands out no target whose second has not begun. -/
theorem le_seconds_of_drained (h : s.Consistent) {second : Int} (waits : s.Waits key second)
    {now : Instant} (drained : key ∈ (s.drain now).1.map Due.key) : second ≤ now.seconds := by
  rw [map_key_drain h, mem_dueBy h] at drained
  obtain ⟨other, begun, there⟩ := drained
  rw [waits.unique there]
  exact begun

end Scheduler

/-- Wherever a word of 64 digits holds the milliseconds at which the interval of a registered target ends: the
target is put down for a second that has begun by then.  That second is the one in which the interval ends
exactly if what is cut away from both operands does not carry over.  Where a word holds the interval itself,
a drain hands the target out at most a second and a millisecond before its interval has passed. -/
theorem trigger_exact_unless_carried (operations : List (Operation δ)) (key : String) (start : Instant) :
    let s := (Scheduler.empty : Scheduler δ).after operations
    ∀ e, s.entry? key = some e → start.inCalendar → (start.after e.current).InMillis →
      ∃ second next, s.scheduleNext key start = .ok (second, next) ∧ next.Waits key second ∧
        second * 1_000_000_000 ≤ (start.after e.current).nanos ∧
        (second = (start.after e.current).seconds ↔ ¬ CarriesOver start e.current) ∧
        (e.current.wholeMillis ≤ maxSigned64 →
          (start.after e.current).nanos ≤ second * 1_000_000_000 + 1_000_999_998 ∧
          ∀ now, key ∈ (next.drain now).1.map Due.key →
            (start.after e.current).nanos ≤ now.nanos + 1_000_999_998) := by
  intro s e found known fits
  obtain ⟨next, scheduled, waits⟩ := Scheduler.scheduleNext_of_found found start
  have consistent : next.Consistent := (Scheduler.consistent_after operations).scheduleNext scheduled
  refine ⟨_, next, scheduled, waits, triggerSecond_le known fits, triggerSecond_eq_iff known fits, ?_⟩
  intro short
  have near := after_le_trigger known fits short
  refine ⟨near, fun now drained => ?_⟩
  have begun := Scheduler.le_seconds_of_drained consistent waits drained
  have second := ((seconds_eq_iff now now.seconds).mp rfl).1
  omega

/-- Before 1970, and with an interval that growth has left between two milliseconds. -/
theorem trigger_before_1970 :
    let operations : List (Operation Unit) :=
      [.register "a" ⟨1_000_571_428⟩ (.ofSecs 10) (), .grow "a"]
    let s := (Scheduler.empty : Scheduler Unit).after operations
    let start : Instant := ⟨-2_500_000_001⟩
    let e : Entry Unit := ⟨"a", ⟨1_000_571_428⟩, .ofSecs 10, ⟨1_750_999_999⟩, 1, (), .idle⟩
    s.entry? "a" = some e ∧ start.inCalendar ∧ (start.after e.current).InMillis ∧
      ¬ CarriesOver start e.current ∧
      ∃ second next, s.scheduleNext "a" start = .ok (second, next) ∧
        second = (start.after e.current).seconds := by
  intro operations s start e
  have found : s.entry? "a" = some e := by decide +kernel
  have known : start.inCalendar := by decide
  have fits : (start.after e.current).InMillis := by decide
  have kept : ¬ CarriesOver start e.current := by decide
  obtain ⟨second, next, scheduled, -, -, exact, -⟩ :=
    trigger_exact_unless_carried operations "a" start e found known fits
  exact ⟨found, known, fits, kept, second, next, scheduled, exact.mpr kept⟩

/-- An interval of a second and almost a millisecond, from an instant just before a second begins: what is cut
away makes up that second.  The target is handed out at the beginning of the first second, more than a second
before its interval has passed. -/
theorem carried_second_is_missed :
    let s := (Scheduler.empty : Scheduler Unit).after [.register "a" ⟨1_000_999_999⟩ (.ofSecs 10) ()]
    let start : Instant := ⟨999_999_999⟩
    let ends := start.after ⟨1_000_999_999⟩
    s.current? "a" = some ⟨1_000_999_999⟩ ∧ start.inCalendar ∧ ends.InMillis ∧ ends.seconds = 2 ∧
      (s.apply (.scheduleNext "a" start)).1 = .trigger 1 ∧
      ((s.apply (.scheduleNext "a" start)).2.drain ⟨1_000_000_000⟩).1.map Due.key = ["a"] ∧
      1_000_000_000 + 1_000_000_000 < ends.nanos := by
  decide +kernel

end Schedule

end Intake
