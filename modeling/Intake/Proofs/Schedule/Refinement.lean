/-
Module: Intake.Proofs.Schedule.Refinement
Purpose: The scheduler with buckets cannot be told from the agenda without them.
Main exports: Schedule.Reflects.apply, Schedule.Reflects.after, Schedule.Reflects.answers,
  Schedule.Reflects.wakeDelay_eq, Schedule.Reflects.bucketCount_eq, Schedule.buckets_refine_agenda
-/
import Intake.Proofs.Schedule.Draining

namespace Intake

/-- Dropping repetitions leaves no element twice. -/
theorem nodup_eraseDups {α : Type u} [BEq α] [LawfulBEq α] : ∀ l : List α, l.eraseDups.Nodup
  | [] => by
      rw [List.eraseDups_nil]
      exact List.nodup_nil
  | x :: rest => by
      have shorter := List.length_filter_le (fun y => !y == x) rest
      rw [List.eraseDups_cons, List.nodup_cons]
      refine ⟨?_, nodup_eraseDups (rest.filter fun y => !y == x)⟩
      intro again
      have kept := (List.mem_filter.mp (List.mem_eraseDups.mp again)).2
      rw [beq_self_eq_true] at kept
      cases kept
termination_by l => l.length

namespace Schedule

variable {δ : Type u} {s : Scheduler δ} {a : Agenda δ}

namespace Reflects

/-! ### One operation

Each operation gets the same answer on both sides and leads to states that reflect each other. -/

/-- An operation gets the same answer on both sides, and afterwards they stand for the same targets
again. -/
theorem apply (h : Reflects s a) (operation : Operation δ) :
    (s.apply operation).1 = (a.apply operation).1 ∧
      Reflects (s.apply operation).2 (a.apply operation).2 := by
  cases operation with
  | register key least greatest descriptor =>
      simp only [Scheduler.apply, Scheduler.register, Agenda.apply, h.contains_eq]
      cases found : a.appointments.find? key with
      | some x => exact ⟨rfl, h⟩
      | none => exact ⟨rfl, h.register found rfl rfl 0⟩
  | unregister key =>
      simp only [Scheduler.apply, Scheduler.unregister, Agenda.apply, Agenda.change, h.entry?_eq]
      cases found : a.appointments.find? key with
      | none => exact ⟨rfl, h⟩
      | some x => exact ⟨rfl, h.unregister found⟩
  | scheduleNext key start =>
      simp only [Scheduler.apply, Scheduler.scheduleNext, Agenda.apply, Agenda.change, h.entry?_eq]
      cases found : a.appointments.find? key with
      | none => exact ⟨rfl, h⟩
      | some x => exact ⟨rfl, h.scheduleNext found start⟩
  | drain now => exact ⟨congrArg Answer.drained (h.drained_eq now), h.drain now⟩
  | grow key =>
      simp only [Scheduler.apply, Scheduler.grow, Agenda.apply, Agenda.change, h.entry?_eq]
      cases found : a.appointments.find? key with
      | none => exact ⟨rfl, h⟩
      | some x =>
          have named : x.entry.grow.key = key := by rw [Entry.grow_key, h.key_of_find? found]
          refine ⟨rfl, h.adjusted found named ?_⟩
          intro second
          rw [Entry.grow_phase]
  | reset key =>
      simp only [Scheduler.apply, Scheduler.reset, Agenda.apply, Agenda.change, h.entry?_eq]
      cases found : a.appointments.find? key with
      | none => exact ⟨rfl, h⟩
      | some x =>
          have named : x.entry.reset.key = key := by rw [Entry.reset_key, h.key_of_find? found]
          refine ⟨rfl, h.adjusted found named ?_⟩
          intro second
          rw [Entry.reset_phase]
  | settle key productive =>
      simp only [Scheduler.apply, Scheduler.settle, Agenda.apply, Agenda.change, h.entry?_eq]
      cases found : a.appointments.find? key with
      | none => exact ⟨rfl, h⟩
      | some x =>
          simp only [Option.map_some]
          by_cases due : x.entry.phase = .due
          · rw [if_pos due, if_pos due]
            have named : (if productive then x.entry.reset else x.entry.grow).key = key := by
              rw [apply_ite Entry.key, Entry.reset_key, Entry.grow_key, ite_self,
                h.key_of_find? found]
            refine ⟨rfl, h.adjusted found named ?_⟩
            intro second
            rw [due]
            simp
          · rw [if_neg due, if_neg due]
            exact ⟨rfl, h⟩
  | clear => exact ⟨rfl, empty⟩

/-! ### Any number of operations

By induction on the operations, both sides stay together. -/

/-- Operations in turn lead to states that reflect each other. -/
theorem after (h : Reflects s a) (operations : List (Operation δ)) :
    Reflects (s.after operations) (a.after operations) := by
  induction operations generalizing s a with
  | nil => exact h
  | cons operation rest ih => exact ih (h.apply operation).2

/-- Operations in turn get the same answers on both sides. -/
theorem answers (h : Reflects s a) (operations : List (Operation δ)) :
    s.answers operations = a.answers operations := by
  induction operations generalizing s a with
  | nil => rfl
  | cons operation rest ih =>
      rw [Scheduler.answers, Agenda.answers, (h.apply operation).1, ih (h.apply operation).2]

/-! ### What can be asked

The questions that change nothing are answered alike, though the agenda answers them from its appointments and
the scheduler from its buckets. -/

/-- There are as many targets on both sides. -/
theorem size_eq (h : Reflects s a) : s.size = a.size := by
  rw [Scheduler.size, h.entries, Agenda.size, Table.size, Table.size, Table.map, List.length_map]

/-- The agenda knows the seconds of the buckets. -/
theorem mem_seconds_iff (h : Reflects s a) (second : Int) :
    second ∈ a.seconds ↔ second ∈ s.buckets.map Prod.fst := by
  have listed : second ∈ s.buckets.map Prod.fst ↔ ∃ key, s.Waits key second := by
    rw [List.mem_map]
    constructor
    · rintro ⟨⟨t, keys⟩, member, rfl⟩
      obtain ⟨key, inside⟩ := List.exists_mem_of_ne_nil keys (h.consistent.listed.filled _ member)
      rw [← h.consistent.listed.ascending.keysAt_of_mem member, h.consistent.listed.placed] at inside
      exact ⟨key, inside⟩
    · rintro ⟨key, waits⟩
      rw [← h.consistent.listed.placed] at waits
      obtain ⟨keys, member, -⟩ := Buckets.exists_mem_of_mem_keysAt waits
      exact ⟨(second, keys), member, rfl⟩
  rw [listed, Agenda.seconds, List.mem_filterMap]
  simp only [h.waits_iff, h.sorted.mem_values_iff]
  constructor
  · rintro ⟨x, ⟨key, found⟩, waits⟩
    exact ⟨key, x, found, waits⟩
  · rintro ⟨key, x, found, waits⟩
    exact ⟨x, ⟨key, found⟩, waits⟩

/-- There are as many buckets as seconds that targets wait for. -/
theorem bucketCount_eq (h : Reflects s a) : s.bucketCount = a.bucketCount := by
  have distinct : (s.buckets.map Prod.fst).Nodup :=
    ((Buckets.ascending_iff _).mp h.consistent.listed.ascending).imp Int.ne_of_lt
  have same : (s.buckets.map Prod.fst).Perm a.seconds.eraseDups := by
    rw [List.perm_ext_iff_of_nodup distinct (nodup_eraseDups _)]
    intro second
    rw [List.mem_eraseDups, h.mem_seconds_iff]
  rw [Scheduler.bucketCount, Agenda.bucketCount, ← same.length_eq, List.length_map]

/-- The first bucket has the least of the seconds that targets wait for. -/
theorem min?_seconds (h : Reflects s a) : a.seconds.min? = s.buckets.head?.map Prod.fst := by
  have seconds := h.mem_seconds_iff
  have ascending := (Buckets.ascending_iff _).mp h.consistent.listed.ascending
  cases first : s.buckets with
  | nil =>
      have none : a.seconds = [] := by
        apply List.eq_nil_iff_forall_not_mem.mpr
        intro second member
        rw [seconds, first] at member
        cases member
      rw [none]
      rfl
  | cons bucket rest =>
      rw [first, List.map_cons] at seconds ascending
      rw [List.head?_cons, Option.map_some, List.min?_eq_some_iff]
      refine ⟨(seconds _).mpr List.mem_cons_self, ?_⟩
      intro second member
      rcases List.mem_cons.mp ((seconds second).mp member) with rfl | later
      · exact Int.le_refl _
      · exact Int.le_of_lt ((List.pairwise_cons.mp ascending).1 second later)

/-- The scheduler wakes up for the first of these seconds. -/
theorem wakeDelay_eq (h : Reflects s a) (now : Instant) : s.wakeDelay now = a.wakeDelay now := by
  rw [Scheduler.wakeDelay, Agenda.wakeDelay, h.min?_seconds, Option.map_map]
  rfl

end Reflects

/-! ### Fires

A target that was handed out waits for nothing until it is put down again, so it is handed out once for each
time it was put down. -/

/-- A target that waits for nothing goes on doing so until it is scheduled. -/
theorem Scheduler.not_waits_after (h : s.Consistent) {key : String}
    (idle : ∀ second, ¬ s.Waits key second) {operations : List (Operation δ)}
    (unscheduled : ∀ start, .scheduleNext key start ∉ operations) (second : Int) :
    ¬ (s.after operations).Waits key second := by
  induction operations generalizing s with
  | nil => exact idle second
  | cons operation rest ih =>
      refine ih (h.apply operation) ?_ ?_
      · intro t waits
        rcases (Scheduler.waits_apply h operation).mp waits with ⟨start, same, -⟩ | ⟨waited, -⟩
        · exact unscheduled start (by rw [same]; exact List.mem_cons_self)
        · exact idle t waited
      · intro start member
        exact unscheduled start (List.mem_cons_of_mem _ member)

/-- Whatever operations a scheduler goes through, each gets the answer that it gets from the agenda, which
keeps no buckets: in particular a drain hands out the same targets with the same data in the same order.
The delay until the next wake-up, the number of targets and the number of buckets are those of the
agenda at any time.  A drain hands a target out, once, exactly if a successful scheduling has put the
target down for a second that has begun and nothing has ended this wait since, be it a removal, another
scheduling, clearing, or an earlier drain in or after that second; and a target that was handed out is
not handed out again before it is scheduled again. -/
theorem buckets_refine_agenda (operations : List (Operation δ)) :
    let s := (Scheduler.empty : Scheduler δ).after operations
    let a := (Agenda.empty : Agenda δ).after operations
    (Scheduler.empty : Scheduler δ).answers operations =
        (Agenda.empty : Agenda δ).answers operations ∧
      (∀ now, s.wakeDelay now = a.wakeDelay now) ∧
      s.size = a.size ∧
      s.bucketCount = a.bucketCount ∧
      (∀ key, s.entry? key = (a.appointments.find? key).map Appointment.entry) ∧
      (∀ now, ((s.drain now).1.map Due.key).Nodup) ∧
      (∀ now key, key ∈ (s.drain now).1.map Due.key ↔
        ∃ second, second ≤ now.seconds ∧ IsBooked operations key second) ∧
      (∀ now key, key ∈ (s.drain now).1.map Due.key →
        ∀ later, (∀ start, .scheduleNext key start ∉ later) →
          ∀ next, key ∉ (((s.drain now).2.after later).drain next).1.map Due.key) := by
  intro s a
  have h : Reflects s a := Reflects.empty.after operations
  have fires (s : Scheduler δ) (consistent : s.Consistent) (now : Instant) (key : String) :
      key ∈ (s.drain now).1.map Due.key ↔ ∃ second, second ≤ now.seconds ∧ s.Waits key second := by
    rw [Scheduler.map_key_drain consistent, Scheduler.mem_dueBy consistent]
  refine ⟨Reflects.empty.answers operations, h.wakeDelay_eq, h.size_eq, h.bucketCount_eq, h.entry?_eq,
    ?_, ?_, ?_⟩
  · intro now
    rw [Scheduler.map_key_drain h.consistent]
    exact Scheduler.nodup_dueBy h.consistent now.seconds
  · intro now key
    simp only [fires s h.consistent, ← Scheduler.waits_after_iff_isBooked, s]
  · intro now key fired later unscheduled next again
    obtain ⟨t, begun, waits⟩ := (fires s h.consistent now key).mp fired
    have idle : ∀ second, ¬ (s.drain now).2.Waits key second := by
      intro second still
      obtain ⟨waited, future⟩ := (h.consistent.waits_drain now second).mp still
      rw [waits.unique waited] at begun
      exact absurd begun (Int.not_le.mpr future)
    have drained := h.consistent.drain now
    obtain ⟨second, -, waiting⟩ := (fires _ (drained.after later) next key).mp again
    exact Scheduler.not_waits_after drained idle unscheduled second waiting

end Schedule

end Intake
