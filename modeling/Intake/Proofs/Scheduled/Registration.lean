/-
Module: Intake.Proofs.Scheduled.Registration
Purpose: What becomes of the targets of a scheduled receiver when they are taken into its scheduler.
Main exports: Scheduled.Registration.second?, Scheduled.Registration.entry, Scheduled.secondOf_eq_now_iff,
  Scheduled.Took, Scheduled.took_pending, Scheduled.Receiver.registerTargets_of_free

Targets with keys of their own are taken one after the other.  Nothing but the calendar can stop this, and what
was taken before stays as it is; so one step lemma and an induction over the targets say all.
-/
import Intake.Proofs.Schedule.Triggers
import Intake.Proofs.Table
import Intake.Scheduled.Registration

namespace Intake

namespace Scheduled

open Schedule

variable {δ : Type u} {settings : PollSettings} {now : Instant} {s : Scheduler δ} {r : Registration δ}

/-! ### The second of a target

A new target is put down for an interval that ends now, so that it is due at once.  The milliseconds of the
interval are taken from the clock as a signed word, which is where a long interval goes wrong. -/

namespace Registration

/-- A target as it is registered, before it is put down for a second. -/
def fresh (settings : PollSettings) (r : Registration δ) : Entry δ :=
  .create r.key (r.least.getD settings.least) (r.greatest.getD settings.greatest) r.target

/-- A target that is put down for a second. -/
def entry (settings : PollSettings) (second : Int) (r : Registration δ) : Entry δ :=
  { r.fresh settings with phase := .scheduled second }

/-- The second that a target is put down for, where the calendar holds the beginning of its interval. -/
def second? (settings : PollSettings) (now : Instant) (r : Registration δ) : Option Int :=
  (now.minusMillis? (r.fresh settings).current.wholeMillis).map (triggerSecond · (r.fresh settings).current)

end Registration

/-- With the number of milliseconds as a signed word, the instant before is taken if the calendar holds it. -/
theorem minusMillis?_eq {millis : Nat} {word : Int}
    (cut : (millis : Int).bmod 0x1_0000_0000_0000_0000 = word) :
    now.minusMillis? millis =
      if word ≠ leastSigned64 ∧ Instant.inCalendar ⟨now.nanos - word * 1_000_000⟩ then
        some ⟨now.nanos - word * 1_000_000⟩
      else none := by
  subst cut
  unfold Instant.minusMillis?
  rfl

/-- A number of milliseconds that a signed word holds is taken away as it is. -/
theorem minusMillis?_of_le {millis : Nat} (short : millis ≤ maxSigned64) :
    now.minusMillis? millis =
      if (now.before millis).inCalendar then some (now.before millis) else none := by
  rw [maxSigned64] at short
  have word : (millis : Int).bmod 0x1_0000_0000_0000_0000 = millis :=
    Int.bmod_eq_of_le_mul_two (by omega) (by omega)
  have span : (millis : Int) ≠ leastSigned64 := by
    rw [leastSigned64]
    omega
  rw [minusMillis?_eq word]
  by_cases known : (now.before millis).inCalendar
  · rw [if_pos ⟨span, known⟩, if_pos known]
    rfl
  · rw [if_neg (fun held => known held.2), if_neg known]

/-- Whatever is taken away, the calendar holds what is left. -/
theorem inCalendar_of_minusMillis? {millis : Nat} {start : Instant}
    (found : now.minusMillis? millis = some start) : start.inCalendar := by
  rw [minusMillis?_eq rfl] at found
  split at found
  · next held =>
      cases found
      exact held.2
  · cases found

/-- The interval that ends now is put down for the current second. -/
theorem triggerSecond_before {interval : Duration} (short : interval.wholeMillis ≤ maxSigned64)
    (known : now.inCalendar) :
    triggerSecond (now.before interval.wholeMillis) interval = now.seconds := by
  obtain ⟨since, ahead⟩ := known
  have current := (seconds_eq_iff now now.seconds).mp rfl
  have sum : cutMillis (now.before interval.wholeMillis) interval = now.millis := by
    have whole := millis_bounds now
    have start := millis_bounds (now.before interval.wholeMillis)
    have beginning := now.nanos_before interval.wholeMillis
    rw [maxSigned64] at short
    rw [cutMillis, greatestSigned64, min_eq_left (by omega)]
    omega
  have whole := millis_bounds now
  rw [Instant.calendarStart] at since
  rw [Instant.calendarEnd] at ahead
  rw [triggerSecond_eq, sum, clampSigned64, leastSigned64, greatestSigned64, min_eq_right (by omega),
    max_eq_right (by omega), Int.fdiv_eq_ediv_of_nonneg _ (by decide)]
  omega

/-- An interval whose milliseconds no signed word holds is put down for a second far behind the calendar. -/
theorem lt_triggerSecond {start : Instant} {interval : Duration} (known : start.inCalendar)
    (long : maxSigned64 < interval.wholeMillis) : Instant.calendarEnd < triggerSecond start interval := by
  have begun := millis_bounds start
  have early := (seconds_eq_iff start _).mp rfl
  have late := known.1
  rw [Instant.calendarStart] at late
  rw [maxSigned64] at long
  have word : min (interval.wholeMillis : Int) greatestSigned64 = greatestSigned64 := by
    rw [greatestSigned64]
    omega
  rw [triggerSecond_eq, cutMillis, word, clampSigned64, leastSigned64, greatestSigned64,
    Int.fdiv_eq_ediv_of_nonneg _ (by decide), Instant.calendarEnd]
  omega

/-- An interval that ends now is put down for the current second exactly if it begins in the calendar.  Else there
is no instant to begin with, or the milliseconds of the interval run over and the second lies far off. -/
theorem secondOf_eq_now_iff (interval : Duration) (current : now.inCalendar) :
    (now.minusMillis? interval.wholeMillis).map (triggerSecond · interval) = some now.seconds ↔
      (now.before interval.wholeMillis).inCalendar := by
  by_cases short : interval.wholeMillis ≤ maxSigned64
  · rw [minusMillis?_of_le short]
    by_cases known : (now.before interval.wholeMillis).inCalendar
    · simp [known, triggerSecond_before short current]
    · simp [known]
  · have ahead := current.2
    refine iff_of_false (fun scheduled => ?_) (fun known => ?_)
    · obtain ⟨start, found, second⟩ := Option.map_eq_some_iff.mp scheduled
      have behind := lt_triggerSecond (inCalendar_of_minusMillis? found) (Nat.lt_of_not_le short)
      omega
    · have start := (seconds_eq_iff (now.before interval.wholeMillis) _).mp rfl
      have second := (seconds_eq_iff now now.seconds).mp rfl
      have beginning := now.nanos_before interval.wholeMillis
      have first := known.1
      rw [Instant.calendarStart] at first
      rw [Instant.calendarEnd] at ahead
      rw [maxSigned64] at short
      omega

/-! ### One target taken

A target with a free key is registered and put down for a second.  Only the calendar can stop this. -/

section

omit settings now

variable (settings : PollSettings)

/-- Registering a target adds its entry, which waits for nothing yet. -/
theorem register_of_free (free : s.entry? r.key = none) :
    s.register r.key (r.least.getD settings.least) (r.greatest.getD settings.greatest) r.target =
      .ok ⟨s.entries.put r.key (r.fresh settings), s.buckets⟩ := by
  have absent : s.entries.contains r.key = false := by
    rw [Table.contains, ← Scheduler.entry?, free]
    rfl
  rw [Scheduler.register, absent, if_neg Bool.false_ne_true]
  rfl

/-- Putting it down adds its key to the bucket of a second. -/
theorem scheduleNext_fresh (s : Scheduler δ) (r : Registration δ) (start : Instant) :
    Scheduler.scheduleNext ⟨s.entries.put r.key (r.fresh settings), s.buckets⟩ r.key start =
      .ok (triggerSecond start (r.fresh settings).current,
        ⟨s.entries.put r.key (r.entry settings (triggerSecond start (r.fresh settings).current)),
          s.buckets.push (triggerSecond start (r.fresh settings).current) r.key⟩) := by
  rw [Scheduler.scheduleNext, Scheduler.entry?_put, if_pos rfl]
  simp only [Table.put_put]
  rfl

/-- A target under a free key is registered and put down for its second, unless the calendar stops it. -/
theorem registerOne_of_free (now : Instant) (free : s.entry? r.key = none) :
    registerOne settings now s r =
      (r.second? settings now).elim (.error .outOfCalendar) fun second =>
        .ok ⟨s.entries.put r.key (r.entry settings second), s.buckets.push second r.key⟩ := by
  have interval :
      Scheduler.current? ⟨s.entries.put r.key (r.fresh settings), s.buckets⟩ r.key =
        some (r.fresh settings).current := by
    rw [Scheduler.current?, Scheduler.entry?_put, if_pos rfl, Option.map_some]
  simp only [registerOne, register_of_free settings free, Except.mapError, bind, Except.bind, interval,
    Option.getD_some, Registration.second?]
  cases now.minusMillis? (r.fresh settings).current.wholeMillis with
  | none => rfl
  | some start => simp only [Option.elim, scheduleNext_fresh, Option.map_some, Except.map]

end

/-! ### All targets taken

Targets with free keys of their own are taken one after another.  What the scheduler has then is told by the
targets taken so far. -/

/-- A scheduler that has taken some targets since it was another one, and did nothing else. -/
structure Took (settings : PollSettings) (now : Instant) (start : Scheduler δ)
    (taken : List (Registration δ)) (s : Scheduler δ) : Prop where
  found : ∀ r ∈ taken, ∃ second, r.second? settings now = some second ∧
    s.entry? r.key = some (r.entry settings second)
  others : ∀ key, key ∉ taken.map (·.key) → s.entry? key = start.entry? key
  counted : start.entries.Sorted → s.entries.Sorted ∧ s.size = start.size + taken.length
  buckets : ∀ second, (∀ r ∈ taken, r.second? settings now = some second) →
    s.buckets = start.buckets.pushAll second (taken.map (·.key))

theorem took_nil (settings : PollSettings) (now : Instant) (s : Scheduler δ) : Took settings now s [] s where
  found := by simp
  others _ _ := rfl
  counted sorted := ⟨sorted, rfl⟩
  buckets _ _ := rfl

variable {taken pending : List (Registration δ)} {start : Scheduler δ}

/-- One more target, which has a key of its own. -/
theorem Took.put (h : Took settings now start taken s) (new : r.key ∉ taken.map (·.key))
    (free : start.entry? r.key = none) {second : Int} (known : r.second? settings now = some second) :
    Took settings now start (taken ++ [r])
      ⟨s.entries.put r.key (r.entry settings second), s.buckets.push second r.key⟩ where
  found := by
    intro other member
    rw [Scheduler.entry?_put]
    rcases List.mem_append.mp member with before | last
    · have differs : other.key ≠ r.key := by
        intro same
        exact new (same ▸ List.mem_map_of_mem before)
      rw [if_neg differs]
      exact h.found other before
    · obtain rfl := List.mem_singleton.mp last
      exact ⟨second, known, if_pos rfl⟩
  others := by
    intro key absent
    rw [List.map_append, List.mem_append, not_or] at absent
    rw [Scheduler.entry?_put, if_neg (by simpa using absent.2)]
    exact h.others key absent.1
  counted := by
    intro sorted
    obtain ⟨ordered, size⟩ := h.counted sorted
    have missing : s.entries.find? r.key = none := (h.others r.key new).trans free
    have added : (s.entries.put r.key (r.entry settings second)).entries.Perm _ := ordered.entries_put
    rw [Table.erase_of_find?_eq_none missing] at added
    refine ⟨ordered.put, ?_⟩
    rw [List.length_append, ← Nat.add_assoc, ← size]
    exact added.length_eq
  buckets := by
    intro other all
    have same : second = other := by
      have last := all r (List.mem_append_right taken List.mem_cons_self)
      rw [known] at last
      exact Option.some.inj last
    subst same
    have before := h.buckets second fun x member => all x (List.mem_append_left [r] member)
    rw [List.map_append, Buckets.pushAll_append, ← before]
    rfl

/-- Targets under free keys of their own are all taken, unless the calendar stops one of them. -/
theorem took_pending (h : Took settings now start taken s)
    (free : ∀ r ∈ pending, start.entry? r.key = none)
    (apart : (taken.map (·.key) ++ pending.map (·.key)).Nodup) :
    (∃ s', pending.foldlM (registerOne settings now) s = .ok s' ∧
        Took settings now start (taken ++ pending) s') ∨
      (pending.foldlM (registerOne settings now) s = .error .outOfCalendar ∧
        ∃ r ∈ pending, r.second? settings now = none) := by
  induction pending generalizing taken s with
  | nil => exact .inl ⟨s, rfl, by rwa [List.append_nil]⟩
  | cons r rest ih =>
      obtain ⟨unused, others⟩ := List.forall_mem_cons.mp free
      have new : r.key ∉ taken.map (·.key) := by
        intro member
        exact (List.nodup_append.mp apart).2.2 r.key member r.key (by simp) rfl
      rw [List.foldlM_cons, registerOne_of_free settings now ((h.others r.key new).trans unused)]
      cases known : r.second? settings now with
      | none => exact .inr ⟨rfl, r, List.mem_cons_self, known⟩
      | some second =>
          have later := ih (h.put new unused known) others (by simpa using apart)
          rw [List.append_assoc] at later
          exact later.imp_right fun ⟨stopped, x, member, unknown⟩ =>
            ⟨stopped, x, List.mem_cons_of_mem r member, unknown⟩

/-- Among free keys of their own, none is taken already. -/
theorem firstTaken?_eq_none {earlier : List String} (free : ∀ r ∈ pending, s.entry? r.key = none)
    (apart : (pending.map (·.key)).Nodup) (new : ∀ r ∈ pending, r.key ∉ earlier) :
    firstTaken? s earlier pending = none := by
  induction pending generalizing earlier with
  | nil => rfl
  | cons r rest ih =>
      rw [List.map_cons, List.nodup_cons] at apart
      have absent : ¬ (s.entries.contains r.key = true ∨ r.key ∈ earlier) := by
        rw [Table.contains, ← Scheduler.entry?, free r List.mem_cons_self, not_or]
        exact ⟨Bool.false_ne_true, new r List.mem_cons_self⟩
      rw [firstTaken?, if_neg absent]
      refine ih (fun x member => free x (List.mem_cons_of_mem r member)) apart.2 fun x member known => ?_
      rcases List.mem_cons.mp known with same | before
      · exact apart.1 (same ▸ List.mem_map_of_mem member)
      · exact new x (List.mem_cons_of_mem r member) before

/-- A receiver whose targets have free keys of their own takes all of them, unless the calendar stops one. -/
theorem Receiver.registerTargets_of_free {receiver : Receiver δ}
    (free : ∀ r ∈ receiver.pending, receiver.scheduler.entry? r.key = none)
    (apart : (receiver.pending.map (·.key)).Nodup) (now : Instant) :
    (∃ s, receiver.registerTargets now = .ok { receiver with pending := [], scheduler := s } ∧
        Took receiver.settings now receiver.scheduler receiver.pending s) ∨
      (receiver.registerTargets now = .error .outOfCalendar ∧
        ∃ r ∈ receiver.pending, r.second? receiver.settings now = none) := by
  rw [registerTargets, firstTaken?_eq_none free apart fun r _ => List.not_mem_nil]
  rcases took_pending (took_nil receiver.settings now receiver.scheduler) free apart with
    ⟨s, done, took⟩ | ⟨stopped, r, member, unknown⟩
  · exact .inl ⟨s, by simp only [done]; rfl, took⟩
  · exact .inr ⟨by simp only [stopped]; rfl, r, member, unknown⟩

end Scheduled

end Intake
