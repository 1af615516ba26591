/-
Module: Intake.Proofs.Schedule.Waking
Purpose: The time at which the next target is due, against the delay until the next wake-up.
Main exports: Schedule.Scheduler.drain_eq_nil_iff, Schedule.Scheduler.wakeDelay_eq_none_iff,
  Schedule.delayUntil_of_begun, Schedule.delayUntil_of_later, Schedule.wake_up_finds_due

The delay is counted in milliseconds and a drain looks at whole seconds.  Both are read off the first bucket:
the millisecond that the clock is in is cut from the delay, so that the second of the bucket has begun when the
delay is over, and has not begun a millisecond before.
-/
import Intake.Proofs.Schedule.Triggers

namespace Intake

namespace Schedule

variable {δ : Type u} {s : Scheduler δ} {now : Instant} {second : Int}

/-! ### The first bucket

The loop sleeps until the first bucket begins.  As the buckets are in order, nothing is due before. -/

/-- An instant is before a second if its nanoseconds are. -/
theorem seconds_lt_iff (t : Instant) (second : Int) :
    t.seconds < second ↔ t.nanos < second * 1_000_000_000 := by
  have current := (seconds_eq_iff t t.seconds).mp rfl
  omega

/-- Nothing is due exactly if the first bucket has not begun. -/
theorem Buckets.dueBy_cons_eq_nil_iff {keys : List String} {rest : Buckets} (filled : keys ≠ [])
    (t : Int) : Buckets.dueBy t ((second, keys) :: rest) = [] ↔ t < second := by
  by_cases begun : second ≤ t
  · simp [Buckets.dueBy, begun, filled]
  · simp [Buckets.dueBy, begun, Int.not_le.mp begun]

namespace Scheduler

/-- A drain hands nothing out exactly if the second of the first bucket has not begun. -/
theorem drain_eq_nil_iff (h : s.Consistent) {keys : List String} {rest : Buckets}
    (buckets : s.buckets = (second, keys) :: rest) (t : Instant) :
    (s.drain t).1 = [] ↔ t.nanos < second * 1_000_000_000 := by
  have filled : keys ≠ [] := by
    apply h.listed.filled (second, keys)
    simp [buckets]
  calc (s.drain t).1 = []
    _ ↔ (s.drain t).1.map Due.key = [] := List.map_eq_nil_iff.symm
    _ ↔ Buckets.dueBy t.seconds ((second, keys) :: rest) = [] := by
        rw [map_key_drain h, buckets]
    _ ↔ t.seconds < second := Buckets.dueBy_cons_eq_nil_iff filled t.seconds
    _ ↔ t.nanos < second * 1_000_000_000 := seconds_lt_iff t second

/-- No target waits exactly if no entry is put down for a second. -/
theorem not_waits_iff (s : Scheduler δ) :
    (∀ key second, ¬ s.Waits key second) ↔
      ∀ key e, s.entry? key = some e → ∀ second, e.phase ≠ .scheduled second := by
  simp only [waits_iff, not_exists, not_and]
  exact forall_congr' fun key => ⟨fun idle e found second => idle second e found,
    fun idle second e found => idle e found second⟩

/-- There is no time to wake up at exactly if no target waits. -/
theorem wakeDelay_eq_none_iff (h : s.Consistent) (now : Instant) :
    s.wakeDelay now = none ↔ ∀ key second, ¬ s.Waits key second := by
  have empty : s.wakeDelay now = none ↔ s.buckets = [] := by
    simp [wakeDelay, List.head?_eq_none_iff]
  constructor
  · intro none key second waits
    have listed := (h.listed.placed key second).mpr waits
    simp [empty.mp none] at listed
  · intro idle
    apply empty.mpr
    cases buckets : s.buckets with
    | nil => rfl
    | cons bucket rest =>
        have member : bucket ∈ s.buckets := by simp [buckets]
        obtain ⟨key, inside⟩ := List.exists_mem_of_ne_nil bucket.2 (h.listed.filled bucket member)
        have placed : key ∈ s.buckets.keysAt bucket.1 := by
          rwa [h.listed.ascending.keysAt_of_mem member]
        exact absurd ((h.listed.placed key bucket.1).mp placed) (idle key bucket.1)

end Scheduler

/-! ### The delay until a second begins

The delay is computed in words of 64 binary digits that stop at their bounds.  Where the delay ends in the
calendar, no bound is met. -/

/-- The delay as the number of milliseconds that a word of 64 digits makes of it. -/
theorem delayUntil_eq (second : Int) (now : Instant) :
    delayUntil second now =
      max (.ofMillis (clampSigned64 (clampSigned64 (second * 1000) - now.millis)).toNat)
        leastWakeDelay := rfl

/-- For a second that has begun the loop sleeps as short as it can. -/
theorem delayUntil_of_begun (known : now.inCalendar) (begun : second * 1000 ≤ now.millis) :
    delayUntil second now = leastWakeDelay := by
  have early := known.1
  have whole := millis_bounds now
  have start := (seconds_eq_iff now _).mp rfl
  have none : (clampSigned64 (clampSigned64 (second * 1000) - now.millis)).toNat = 0 := by
    simp only [clampSigned64, leastSigned64, greatestSigned64, Instant.calendarStart] at *
    omega
  rw [delayUntil_eq, none]
  rfl

/-- A millisecond or more is as long as the loop sleeps at least. -/
theorem max_leastWakeDelay {millis : Nat} (positive : 0 < millis) :
    max (Duration.ofMillis millis) leastWakeDelay = .ofMillis millis := by
  show (if Duration.ofMillis millis ≤ leastWakeDelay then leastWakeDelay else .ofMillis millis) = _
  split
  · next short =>
      have least : millis * 1_000_000 ≤ 1 * 1_000_000 := short
      have one : millis = 1 := by omega
      rw [one]
      rfl
  · rfl

/-- For a later second the delay is the time from the millisecond of the clock up to it.  It can only be shorter
where no word of 64 digits holds it, and then it leads out of the calendar. -/
theorem delayUntil_of_later (known : now.inCalendar) (later : now.millis < second * 1000) :
    ∃ millis : Nat, delayUntil second now = .ofMillis millis ∧ 0 < millis ∧
      (millis : Int) ≤ second * 1000 - now.millis ∧
      ((now.after (.ofMillis millis)).inCalendar → (millis : Int) = second * 1000 - now.millis) := by
  have early := known.1
  have late := known.2
  have whole := millis_bounds now
  have start := (seconds_eq_iff now _).mp rfl
  let word := clampSigned64 (clampSigned64 (second * 1000) - now.millis)
  have bounds : 0 < word ∧ word ≤ second * 1000 - now.millis ∧
      (word = second * 1000 - now.millis ∨ greatestSigned64 - now.millis ≤ word ∨
        word = greatestSigned64) := by
    simp only [word, clampSigned64, leastSigned64, greatestSigned64, Instant.calendarStart,
      Instant.calendarEnd] at *
    omega
  obtain ⟨positive, atMost, reached⟩ := bounds
  refine ⟨word.toNat, ?_, by omega, by omega, fun inside => ?_⟩
  · rw [delayUntil_eq, max_leastWakeDelay (by omega)]
  · have behind := seconds_lt_iff (now.after (.ofMillis word.toNat)) Instant.calendarEnd
    have ends := behind.mp inside.2
    have length : ((Duration.ofMillis word.toNat).nanos : Int) = word * 1_000_000 := by
      simp only [Duration.ofMillis, Duration.nanosPerMilli]
      omega
    rw [Instant.nanos_after, length] at ends
    simp only [greatestSigned64, Instant.calendarStart, Instant.calendarEnd] at *
    omega

/-! ### Waking up

Sleeping for the delay leads to an instant at which something is due, and a shorter sleep by a millisecond
does not. -/

/-- After any operations, at any time of the calendar: there is a delay exactly if a target waits.  It is a
millisecond at least.  Whoever sleeps that long, or longer, finds a target that is due.  And it is not longer
than it must be: either a target is due already and the delay is the shortest one, or nothing is due up to a
millisecond before the delay is over. -/
theorem wake_up_finds_due (operations : List (Operation δ)) (now : Instant) (known : now.inCalendar) :
    let s := (Scheduler.empty : Scheduler δ).after operations
    (s.wakeDelay now = none ↔
        ∀ key e, s.entry? key = some e → ∀ second, e.phase ≠ .scheduled second) ∧
      ∀ delay, s.wakeDelay now = some delay →
        .ofMillis 1 ≤ delay ∧
        ((now.after delay).inCalendar → ∀ t, now.after delay ≤ t → (s.drain t).1 ≠ []) ∧
        ((s.drain now).1 ≠ [] ∧ delay = .ofMillis 1 ∨
          ∀ t, t.after (.ofMillis 1) ≤ now.after delay → (s.drain t).1 = []) := by
  intro s
  have h : s.Consistent := Scheduler.consistent_after operations
  refine ⟨(s.wakeDelay_eq_none_iff h now).trans (s.not_waits_iff), fun delay found => ?_⟩
  obtain ⟨⟨second, keys⟩, first, rfl⟩ := Option.map_eq_some_iff.mp found
  obtain ⟨rest, buckets⟩ := List.head?_eq_some_iff.mp first
  have quiet (t : Instant) := Scheduler.drain_eq_nil_iff h buckets t
  have whole := millis_bounds now
  rcases lt_or_ge now.millis (second * 1000) with later | begun
  · obtain ⟨millis, length, positive, atMost, reached⟩ := delayUntil_of_later known later
    have nanos : ((Duration.ofMillis millis).nanos : Int) = millis * 1_000_000 := rfl
    have least : Duration.ofMillis 1 ≤ .ofMillis millis := Nat.mul_le_mul_right _ positive
    simp only [length]
    refine ⟨least, fun inside t behind => ?_, Or.inr fun t before => ?_⟩
    · have exactly := reached inside
      have ends : now.nanos + (Duration.ofMillis millis).nanos ≤ t.nanos := behind
      intro empty
      have early := (quiet t).mp empty
      omega
    · have ends : t.nanos + 1_000_000 ≤ now.nanos + (Duration.ofMillis millis).nanos := before
      apply (quiet t).mpr
      omega
  · have due : (s.drain now).1 ≠ [] := by
      intro empty
      have early := (quiet now).mp empty
      omega
    simp only [delayUntil_of_begun known begun]
    refine ⟨Nat.le_refl _, fun _ t behind empty => ?_, Or.inl ⟨due, rfl⟩⟩
    have ends : now.nanos + 1_000_000 ≤ t.nanos := behind
    have early := (quiet t).mp empty
    omega

/-- Before 1970 and between two milliseconds: the second begins less than a millisecond before the delay is
over. -/
theorem wake_up_before_1970 :
    let operations : List (Operation Unit) :=
      [.register "a" ⟨1_500_000_000⟩ (.ofSecs 10) (), .scheduleNext "a" ⟨-2_750_000_001⟩]
    let s := (Scheduler.empty : Scheduler Unit).after operations
    let now : Instant := ⟨-2_750_000_001⟩
    let delay : Duration := .ofMillis 751
    now.inCalendar ∧ s.wakeDelay now = some delay ∧
      (s.drain (now.after delay)).1 ≠ [] ∧ (s.drain ⟨-2_000_000_001⟩).1 = [] := by
  intro operations s now delay
  have known : now.inCalendar := by decide
  have found : s.wakeDelay now = some delay := by decide +kernel
  obtain ⟨-, wakes, earliest⟩ := (wake_up_finds_due operations now known).2 delay found
  have due : (s.drain (now.after delay)).1 ≠ [] :=
    wakes (by decide) (now.after delay) (Int.le_refl _)
  rcases earliest with ⟨-, shortest⟩ | early
  · exact absurd shortest (by decide)
  · exact ⟨known, found, due, early ⟨-2_000_000_001⟩ (by decide)⟩

end Schedule

end Intake
