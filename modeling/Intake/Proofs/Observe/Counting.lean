/-
Module: Intake.Proofs.Observe.Counting
Purpose: The snapshot after any history of calls.
Main exports: Metrics.withoutClock_recordEach_sinceReset, Metrics.Counts, Metrics.Counts.record,
  Metrics.counts_recordEach, Metrics.Timing.mean_ofTimes, Metrics.snapshot_shows_calls_since_reset

The number of items in progress follows the balance of calls, and is pushed up where the balance reaches a new least
value: what it is pushed up by is that value.  So the invariant of a history is the least value the balance has had.
-/
import Mathlib.Algebra.Order.BigOperators.Group.List
import Mathlib.Algebra.Order.Group.Nat
import Mathlib.Data.List.Induction
import Intake.Observe.Calls

namespace Intake

namespace Metrics

variable {m : Metrics} {e : Event} {calls : List Call} {start now : Nat}

@[simp] theorem recordEach_concat (m : Metrics) (calls : List Call) (last : Call) :
    m.recordEach (calls ++ [last]) = (m.recordEach calls).record last.now last.event := by
  rw [recordEach, List.foldl_concat, ← recordEach]

/-! ### Clock readings and resets

The clock enters a collector only by its start and by the age that a snapshot shows.  Without it, the calls
before a reset have no part in what comes after it. -/

/-- The counters with the clock at zero. -/
def withoutClock (m : Metrics) : Metrics := { m with startedAt := 0, lastHealthCheck := 0 }

/-- Recording a call reads the clock for nothing but a new start. -/
theorem withoutClock_record (m : Metrics) (now : Nat) (e : Event) :
    (m.record now e).withoutClock = (m.withoutClock.record 0 e).withoutClock := by
  cases e <;> rfl

/-- Neither do any number of calls. -/
theorem withoutClock_recordEach (m : Metrics) (calls : List Call) :
    (m.recordEach calls).withoutClock =
      ((calls.map Call.event).foldl (fun m e => (m.record 0 e).withoutClock) m.withoutClock) := by
  induction calls using List.reverseRecOn with
  | nil => rfl
  | append_singleton calls last ih =>
      rw [recordEach_concat, withoutClock_record, ih, List.map_append, List.map_singleton, List.foldl_concat]

/-- A snapshot reads the clock for the age of the collector only. -/
theorem withoutClock_snapshot (m : Metrics) (now : Nat) :
    (m.snapshot now).withoutClock = (m.withoutClock.snapshot 0).withoutClock := rfl

/-- No field is left over. -/
theorem reset_eq_fresh (m : Metrics) (now : Nat) : m.reset now = fresh now := rfl

/-- Apart from the clock, only the calls since the last reset are left. -/
theorem withoutClock_recordEach_sinceReset (start : Nat) (calls : List Call) :
    ((fresh start).recordEach calls).withoutClock = ((fresh start).recordEach (sinceReset calls)).withoutClock := by
  induction calls using List.reverseRecOn with
  | nil => rfl
  | append_singleton calls last ih =>
      by_cases cleared : last.event = .reset
      · rw [sinceReset, List.rtakeWhile_concat_neg _ _ _ (by simp [cleared]), recordEach_concat, cleared, record,
          reset_eq_fresh]
        rfl
      · rw [sinceReset, List.rtakeWhile_concat_pos _ _ _ (by simp [cleared]), ← sinceReset, recordEach_concat,
          recordEach_concat, withoutClock_record, ih, ← withoutClock_record]

/-- There is no reset among them. -/
theorem not_reset_of_mem_sinceReset {call : Call} (member : call ∈ sinceReset calls) : call.event ≠ .reset := by
  have kept := List.mem_rtakeWhile_imp (p := fun call : Call => call.event != .reset) member
  exact bne_iff_ne.mp kept

/-! ### What one call does

One lemma for each part of a collector that a call may change: its own counter, the items in progress, their
maximum and the window of times. -/

/-- By how much an event changes the balance. -/
def Event.change : Event → Int
  | .itemReceived => 1
  | .itemCompleted => -1
  | .itemRecovered => -1
  | .itemFailed => -1
  | .itemDelegated => -1
  | _ => 0

/-- A call is counted under its own event. -/
theorem counter?_record (counted : e ≠ .reset) (m : Metrics) (now at_ : Nat) (k : Event) :
    ((m.record at_ e).snapshot now).counter? k =
      ((m.snapshot now).counter? k).map (· + if e = k then 1 else 0) := by
  cases e with
  | reset => exact absurd rfl counted
  | _ => cases k <;> rfl

/-- The number of items in progress changes by the balance of the event, and stays at zero. -/
theorem itemsInFlight_record (counted : e ≠ .reset) (m : Metrics) (now : Nat) :
    ((m.record now e).itemsInFlight : Int) = max 0 (m.itemsInFlight + e.change) := by
  cases e with
  | reset => exact absurd rfl counted
  | _ => simp only [record, finishItem, Event.change]; omega

/-- The maximum follows the number of items in progress. -/
theorem maxInFlight_record (counted : e ≠ .reset) (peak : m.itemsInFlight ≤ m.maxInFlight) (now : Nat) :
    (m.record now e).maxInFlight = max m.maxInFlight (m.record now e).itemsInFlight := by
  cases e with
  | reset => exact absurd rfl counted
  | itemReceived => rfl
  | _ => simp only [record, finishItem]; omega

/-- A call that ends an item puts its time into the window. -/
theorem times_record (counted : e ≠ .reset) (m : Metrics) (now : Nat) :
    (m.record now e).times =
      match e.time? with
      | some time => pushTime m.times (cut64 time.wholeMillis)
      | none => m.times := by
  cases e with
  | reset => exact absurd rfl counted
  | _ => rfl

/-! ### What one more call changes in a history

The same quantities, read off a list of calls.  Each of them changes with one more call as the part of the
collector does that shows it. -/

/-- One more call is one more occurrence of its event. -/
theorem occurrences_concat (e : Event) (calls : List Call) (last : Call) :
    occurrences e (calls ++ [last]) = occurrences e calls + if last.event = e then 1 else 0 := by
  simp [occurrences, List.count_singleton]

/-- One more call changes the balance by that of its event. -/
theorem balance_concat (calls : List Call) (last : Call) :
    balance (calls ++ [last]) = balance calls + last.event.change := by
  simp only [balance, finished, occurrences_concat]
  cases last.event with
  | _ => simp [Event.change] <;> omega

/-- Along one more call, a quantity takes one more value. -/
theorem along_concat {α : Type} (quantity : List Call → α) (calls : List Call) (last : Call) :
    along quantity (calls ++ [last]) = insert (quantity (calls ++ [last])) (along quantity calls) := by
  ext value
  show (∃ first, first <+: calls ++ [last] ∧ quantity first = value) ↔ value = _ ∨ ∃ first, first <+: calls ∧ _
  simp only [List.prefix_concat_iff, or_and_right, exists_or, exists_eq_left, eq_comm]

/-- Along no call, it has the value that it has at the start. -/
theorem along_nil {α : Type} (quantity : List Call → α) : along quantity [] = {quantity []} := by
  ext value
  simp [along, eq_comm]

/-- Putting a time into a window keeps the last ones of all times. -/
theorem pushTime_rtake {α : Type} (f : α → Nat) (all : List α) (last : α) :
    pushTime ((all.rtake windowSize).map f) (f last) = ((all ++ [last]).rtake windowSize).map f := by
  have grown : (all.rtake windowSize).map f ++ [f last] = ((all ++ [last]).drop (all.length - windowSize)).map f := by
    rw [List.drop_append_of_le_length (Nat.sub_le _ _), List.map_append, List.rtake]
    rfl
  rw [pushTime, grown, List.rtake, List.length_map, List.length_drop, List.length_append, List.length_singleton]
  split
  · next full =>
      have one : all.length - windowSize + 1 = all.length + 1 - windowSize := by omega
      rw [← List.map_drop, List.drop_drop, one]
  · next room =>
      have none : all.length - windowSize = all.length + 1 - windowSize := by omega
      rw [none]

/-- One more call puts its time into the window, if it has one. -/
theorem keptTimes_concat (calls : List Call) (last : Call) :
    (keptTimes (calls ++ [last])).map (fun time => cut64 time.wholeMillis) =
      match last.event.time? with
      | some time => pushTime ((keptTimes calls).map fun time => cut64 time.wholeMillis) (cut64 time.wholeMillis)
      | none => (keptTimes calls).map fun time => cut64 time.wholeMillis := by
  rw [keptTimes, List.filterMap_append]
  cases timed : last.event.time? with
  | none => simp only [List.filterMap_cons, timed, List.filterMap_nil, List.append_nil, keptTimes]
  | some time =>
      simp only [List.filterMap_cons, timed, List.filterMap_nil]
      exact (pushTime_rtake _ _ time).symm

/-! ### Histories

Call by call, a collector shows of its history what the history says about itself. -/

/-- The counters are those of the calls. -/
structure Counts (m : Metrics) (start : Nat) (calls : List Call) : Prop where
  counters : ∀ now e n, (m.snapshot now).counter? e = some n → n = occurrences e calls
  inFlight : IsLeast (along balance calls) (balance calls - m.itemsInFlight)
  maxInFlight : IsGreatest (along (inFlightAfter start) calls) m.maxInFlight
  times : m.times = (keptTimes calls).map fun time => cut64 time.wholeMillis
  fits : m.maxInFlight ≤ calls.length

/-- A new collector has counted nothing. -/
theorem Counts.nil (start : Nat) : Counts (fresh start) start [] where
  counters now e n found := by
    cases e <;> first | exact (Option.some.inj found).symm | cases found
  inFlight := by rw [along_nil]; exact isLeast_singleton
  maxInFlight := by rw [along_nil]; exact isGreatest_singleton
  times := rfl
  fits := Nat.le_refl 0

/-- No more items are in progress than there ever were at once. -/
theorem Counts.peak (k : Counts ((fresh start).recordEach calls) start calls) :
    ((fresh start).recordEach calls).itemsInFlight ≤ ((fresh start).recordEach calls).maxInFlight :=
  k.maxInFlight.2 ⟨calls, List.prefix_rfl, rfl⟩

/-- One more call is counted on both sides. -/
theorem Counts.record {last : Call} (k : Counts ((fresh start).recordEach calls) start calls)
    (counted : last.event ≠ .reset) :
    Counts ((fresh start).recordEach (calls ++ [last])) start (calls ++ [last]) := by
  have inFlight := itemsInFlight_record counted ((fresh start).recordEach calls) last.now
  have maxInFlight := maxInFlight_record counted k.peak last.now
  rw [← recordEach_concat] at inFlight maxInFlight
  refine ⟨fun now e n found => ?_, ?_, ?_, ?_, ?_⟩
  · rw [recordEach_concat, counter?_record counted] at found
    obtain ⟨before, there, rfl⟩ := Option.map_eq_some_iff.mp found
    rw [occurrences_concat, k.counters now e before there]
  · -- The number stays at zero exactly where the balance falls below all that it has been.
    have lowest : balance (calls ++ [last]) - ((fresh start).recordEach (calls ++ [last])).itemsInFlight =
        min (balance (calls ++ [last])) (balance calls - ((fresh start).recordEach calls).itemsInFlight) := by
      rw [inFlight, balance_concat]
      omega
    rw [lowest, along_concat]
    exact k.inFlight.insert _
  · rw [maxInFlight, max_comm, along_concat]
    exact k.maxInFlight.insert _
  · rw [recordEach_concat, times_record counted, keptTimes_concat, k.times]
  · have small : last.event.change ≤ 1 := by cases last.event <;> simp [Event.change]
    have peak := k.peak
    have fits := k.fits
    rw [maxInFlight, List.length_append, List.length_singleton]
    omega

/-- Without a reset, the counters of a new collector are those of the calls. -/
theorem counts_recordEach (start : Nat) (counted : ∀ call ∈ calls, call.event ≠ .reset) :
    Counts ((fresh start).recordEach calls) start calls := by
  induction calls using List.reverseRecOn with
  | nil => exact .nil start
  | append_singleton calls last ih =>
      have before := ih fun call member => counted call (List.mem_append_left _ member)
      exact before.record (counted last (by simp))

/-! ### Times

Times are added up in a word of 64 binary digits.  Where the sum fits into one, the mean and the percentiles
are those of the times themselves. -/

/-- What fits into a word is kept whole. -/
theorem cut64_of_le {n : Nat} (short : n ≤ max64) : cut64 n = n := Nat.mod_eq_of_lt (Nat.lt_succ_of_le short)

/-- So are times that do. -/
theorem map_cut64 {times : List Duration} (short : ∀ time ∈ times, time.wholeMillis ≤ max64) :
    times.map (fun time => cut64 time.wholeMillis) = times.map Duration.wholeMillis :=
  List.map_congr_left fun time member => cut64_of_le (short time member)

/-- The sum of some times, one after another. -/
theorem totalMillis_eq (times : List Duration) :
    totalMillis times = (times.map Duration.wholeMillis).foldl (· + ·) 0 := List.foldl_map.symm

/-- No time is longer than all of them together. -/
theorem wholeMillis_le_total {times : List Duration} {time : Duration} (member : time ∈ times) :
    time.wholeMillis ≤ totalMillis times := by
  rw [totalMillis_eq, ← List.sum_eq_foldl]
  exact List.le_sum_of_mem (List.mem_map_of_mem member)

/-- The mean does not depend on the order of the times. -/
theorem Timing.mean_ofTimes {times : List Duration} (timed : times ≠ []) :
    (Timing.ofTimes (times.map Duration.wholeMillis)).mean =
      .div (.ofNat (cut64 (totalMillis times))) (.ofNat times.length) := by
  have length : (times.map Duration.wholeMillis).mergeSort.length = times.length := by
    rw [List.length_mergeSort, List.length_map]
  have sorted : (times.map Duration.wholeMillis).mergeSort ≠ [] := by
    rw [← List.length_pos_iff, length]
    exact List.length_pos_iff.mpr timed
  have sum : (times.map Duration.wholeMillis).mergeSort.foldl (· + ·) 0 = totalMillis times := by
    rw [totalMillis_eq, ← List.sum_eq_foldl, ← List.sum_eq_foldl, (List.mergeSort_perm _ _).sum_eq]
  rw [Timing.ofTimes, if_neg sorted, sum, length]

/-! ### Snapshots

A snapshot is compared with the calls since the last reset, first for a collector without resets and then for
any. -/

/-- Where the balance has never been below zero, it is the number of items in progress. -/
theorem Counts.balance_eq (k : Counts m start calls) (covered : ∀ first, first <+: calls → 0 ≤ balance first) :
    balance calls = m.itemsInFlight := by
  obtain ⟨first, early, least⟩ := k.inFlight.1
  have above : 0 ≤ balance calls - m.itemsInFlight := least ▸ covered first early
  have below : balance calls - m.itemsInFlight ≤ 0 := k.inFlight.2 ⟨[], List.nil_prefix, rfl⟩
  omega

/-- As long as no item ends that has not begun, the items received are those that ended and those in progress.
-/
theorem Counts.conserved (k : Counts m start calls) (covered : ∀ first, first <+: calls → 0 ≤ balance first) :
    m.itemsReceived = m.itemsCompleted + m.itemsRecovered + m.itemsFailed + m.itemsDelegated + m.itemsInFlight := by
  have balanced := k.balance_eq covered
  rw [balance, finished, ← k.counters 0 .itemReceived _ rfl, ← k.counters 0 .itemCompleted _ rfl,
    ← k.counters 0 .itemRecovered _ rfl, ← k.counters 0 .itemFailed _ rfl,
    ← k.counters 0 .itemDelegated _ rfl] at balanced
  simp only [snapshot] at balanced
  omega

/-- No event occurs more often than there are calls. -/
theorem occurrences_le_length (e : Event) (calls : List Call) : occurrences e calls ≤ calls.length :=
  List.count_le_length.trans_eq (List.length_map _)

/-- A snapshot shows what the collector has counted. -/
theorem Counts.shows (k : Counts ((fresh start).recordEach calls) start calls) (now : Nat) :
    (((fresh start).recordEach calls).snapshot now).Shows start calls where
  counters := k.counters now
  inFlight := k.inFlight
  maxInFlight := k.maxInFlight
  conserved := k.conserved
  timing := congrArg Timing.ofTimes k.times
  exactTiming short := congrArg Timing.ofTimes (k.times.trans (map_cut64 short))
  mean timed few := by
    have short : ∀ time ∈ keptTimes calls, time.wholeMillis ≤ max64 := fun time member =>
      Nat.le_trans (wholeMillis_le_total member) few
    have all := congrArg Timing.ofTimes (k.times.trans (map_cut64 short))
    rw [snapshot, timing, all, Timing.mean_ofTimes timed, cut64_of_le few]
  fits := ⟨fun e n found => k.counters now e n found ▸ occurrences_le_length e calls, k.peak, k.fits⟩

/-- What a snapshot shows of calls has nothing to do with the clock. -/
theorem Snapshot.shows_withoutClock_iff {s : Snapshot} : s.withoutClock.Shows start calls ↔ s.Shows start calls := by
  constructor
  · rintro ⟨counters, inFlight, maxInFlight, conserved, timing, exactTiming, mean, fits⟩
    exact ⟨counters, inFlight, maxInFlight, conserved, timing, exactTiming, mean, fits⟩
  · rintro ⟨counters, inFlight, maxInFlight, conserved, timing, exactTiming, mean, fits⟩
    exact ⟨counters, inFlight, maxInFlight, conserved, timing, exactTiming, mean, fits⟩

/-- After any calls, with resets anywhere among them, a snapshot shows the calls since the last reset; and a new
collector that gets nothing but these shows the same, at whatever times it gets them. -/
theorem snapshot_shows_calls_since_reset (start now : Nat) (calls : List Call) :
    let s := ((fresh start).recordEach calls).snapshot now
    s.Shows start (sinceReset calls) ∧
    ∀ (start' now' : Nat) (again : List Call), again.map Call.event = (sinceReset calls).map Call.event →
      (((fresh start').recordEach again).snapshot now').withoutClock = s.withoutClock := by
  intro s
  have recent := counts_recordEach start fun call (member : call ∈ sinceReset calls) =>
    not_reset_of_mem_sinceReset member
  have alike : s.withoutClock = (((fresh start).recordEach (sinceReset calls)).snapshot now).withoutClock := by
    rw [withoutClock_snapshot, withoutClock_recordEach_sinceReset, ← withoutClock_snapshot]
  refine ⟨?_, fun start' now' again same => ?_⟩
  · rw [← Snapshot.shows_withoutClock_iff, alike, Snapshot.shows_withoutClock_iff]
    exact recent.shows now
  · rw [alike, withoutClock_snapshot, withoutClock_recordEach, same, withoutClock_snapshot _ now,
      withoutClock_recordEach _ (sinceReset calls)]
    rfl

/-- Three times of more than six trillion seconds, and a mean below a millisecond: the sum is cut. -/
theorem mean_of_long_times_is_cut :
    let times : List Duration :=
      [.ofMillis 6148914691236517205, .ofMillis 6148914691236517206, .ofMillis 6148914691236517207]
    let calls := times.map fun time => (⟨0, .processed time⟩ : Call)
    let s := ((fresh 0).recordEach calls).snapshot 0
    keptTimes calls = times ∧
    s.timing.mean = .div (.ofNat 2) (.ofNat 3) ∧
    s.timing.mean ≠ .div (.ofNat (totalMillis times)) (.ofNat 3) := by
  intro times calls s
  have kept : keptTimes calls = times := by decide
  have cut : cut64 (totalMillis times) = 2 := by decide
  have mean : s.timing.mean = .div (.ofNat (cut64 (totalMillis times))) (.ofNat 3) :=
    Timing.mean_ofTimes (List.cons_ne_nil _ _ : times ≠ [])
  rw [cut] at mean
  have wrong : Binary64.div (.ofNat 2) (.ofNat 3) ≠ .div (.ofNat (totalMillis times)) (.ofNat 3) := by
    decide +kernel
  refine ⟨kept, mean, ?_⟩
  rw [mean]
  exact wrong

end Metrics

end Intake
