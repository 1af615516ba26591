/-
Module: Intake.Proofs.Schedule.Waiting
Purpose: Since when and until when a target waits for a second.
Main exports: Schedule.Scheduler.waits_apply, Schedule.Scheduler.waits_after_iff_isBooked

A target waits for a second exactly from the operation that put it down for this second to the first
one that ends the wait.  One lemma says so for a single operation, and the rest is an induction over the
operations from the last one back.
-/
import Mathlib.Data.List.Induction
import Intake.Proofs.Schedule.Consistency

namespace Intake

namespace Schedule

namespace Scheduler

variable {δ : Type u} {s : Scheduler δ} {key : String} {second : Int}

/-! ### One entry put or erased

How the targets that wait change with one entry. -/

/-- A target waits as its entry says, once it is put in place. -/
theorem waits_put {e : Entry δ} {buckets : Buckets} {other : String} :
    Waits ⟨s.entries.put other e, buckets⟩ key second ↔
      if key = other then e.phase = .scheduled second else s.Waits key second := by
  rw [Waits, phase?_put]
  split
  · rw [Option.some.injEq]
  · rfl

/-- A target that is gone does not wait. -/
theorem waits_erase {buckets : Buckets} {other : String} :
    Waits ⟨s.entries.erase other, buckets⟩ key second ↔ key ≠ other ∧ s.Waits key second := by
  rw [Waits, phase?, entry?_erase]
  split
  · next same => simp [same]
  · next differs =>
      rw [← entry?]
      exact (and_iff_right differs).symm

/-- A target that is not there does not wait. -/
theorem not_waits_of_entry?_eq_none (missing : s.entry? key = none) : ¬ s.Waits key second := by
  rw [Waits, phase?, missing]
  simp

/-- An entry that waits as the one before it did leaves all targets waiting as they did. -/
theorem waits_put_of_phase {e x : Entry δ} {other : String} (found : s.entry? other = some x)
    (same : e.phase = .scheduled second ↔ x.phase = .scheduled second) :
    Waits ⟨s.entries.put other e, s.buckets⟩ key second ↔ s.Waits key second := by
  rw [waits_put]
  split
  · next here => rw [same, here, Waits, phase?, found, Option.map_some, Option.some.injEq]
  · rfl

/-! ### One operation

An operation books a second for a target, ends its wait or has no part in it. -/

/-- After an operation a target waits for a second if the operation has just put it down for this second,
or if it waited before and the operation does not end this. -/
theorem waits_apply (h : s.Consistent) (operation : Operation δ) :
    (s.apply operation).2.Waits key second ↔
      (∃ start, operation = .scheduleNext key start ∧ (s.apply operation).1 = .trigger second) ∨
        (s.Waits key second ∧ ¬ operation.EndsWait key second) := by
  cases operation with
  | register other least greatest descriptor =>
      simp only [apply, Scheduler.register]
      cases known : s.entries.contains other with
      | true => simp [Operation.EndsWait]
      | false =>
          have missing : s.entry? other = none := by simpa [Table.contains, entry?] using known
          simp only [Bool.false_eq_true, if_false, waits_put, Entry.create_phase]
          by_cases same : key = other
          · have idle : ¬ s.Waits other second := not_waits_of_entry?_eq_none missing
            simp [same, idle]
          · simp [same, Operation.EndsWait]
  | unregister other =>
      simp only [apply, Scheduler.unregister]
      cases found : s.entry? other with
      | none =>
          by_cases same : key = other
          · have idle : ¬ s.Waits other second := not_waits_of_entry?_eq_none found
            simp [same, idle]
          · simp [Operation.EndsWait, Ne.symm same]
      | some e => simp [waits_erase, Operation.EndsWait, and_comm, eq_comm]
  | scheduleNext other start =>
      simp only [apply, Scheduler.scheduleNext]
      cases found : s.entry? other with
      | none =>
          by_cases same : key = other
          · have idle : ¬ s.Waits other second := not_waits_of_entry?_eq_none found
            simp [same, idle]
          · simp [Operation.EndsWait, Ne.symm same]
      | some e =>
          by_cases same : key = other
          · simp [waits_put, same, Operation.EndsWait]
          · simp [waits_put, same, Operation.EndsWait, Ne.symm same]
  | drain now =>
      have kept : (s.drain now).2.Waits key second ↔ s.Waits key second ∧ now.seconds < second :=
        h.waits_drain now second
      simp only [apply, Operation.EndsWait, Int.not_le, reduceCtorEq, false_and, exists_false,
        false_or]
      exact kept
  | grow other =>
      simp only [apply, Scheduler.grow]
      cases found : s.entry? other with
      | none => simp [Operation.EndsWait]
      | some e => simp [waits_put_of_phase found, Operation.EndsWait]
  | reset other =>
      simp only [apply, Scheduler.reset]
      cases found : s.entry? other with
      | none => simp [Operation.EndsWait]
      | some e => simp [waits_put_of_phase found, Operation.EndsWait]
  | settle other productive =>
      simp only [apply, Scheduler.settle]
      cases found : s.entry? other with
      | none => simp [Operation.EndsWait]
      | some e =>
          by_cases due : e.phase = .due
          · simp [due, waits_put_of_phase found, Operation.EndsWait]
          · simp [due, Operation.EndsWait]
  | clear =>
      have idle : ¬ (s.clear).Waits key second := by simp [Waits, phase?, entry?, clear, empty]
      simp [apply, Operation.EndsWait, idle]

/-! ### Any number of operations

Whether a target waits for a second is told by the operations alone: one of them has put it down, and none
behind it has ended the wait. -/

theorem isBooked_nil : ¬ IsBooked ([] : List (Operation δ)) key second := by
  rintro ⟨earlier, start, later, impossible, -⟩
  simp at impossible

/-- One more operation books a target, or leaves it booked. -/
theorem isBooked_concat {operations : List (Operation δ)} {last : Operation δ} :
    IsBooked (operations ++ [last]) key second ↔
      (∃ start, last = .scheduleNext key start ∧
          (((empty : Scheduler δ).after operations).apply last).1 = .trigger second) ∨
        (IsBooked operations key second ∧ ¬ last.EndsWait key second) := by
  constructor
  · rintro ⟨earlier, start, later, split, answer, waiting⟩
    rcases List.eq_nil_or_concat later with rfl | ⟨between, final, concat⟩
    · obtain ⟨rfl, same⟩ := List.append_inj' split rfl
      injection same with same
      exact Or.inl ⟨start, same, by rw [same]; exact answer⟩
    · rw [List.concat_eq_append] at concat
      subst concat
      have shape : operations ++ [last] =
          (earlier ++ .scheduleNext key start :: between) ++ [final] := by
        rw [split, List.append_assoc, List.cons_append]
      obtain ⟨rfl, same⟩ := List.append_inj' shape rfl
      injection same with same
      refine Or.inr ⟨⟨earlier, start, between, rfl, answer, ?_⟩, ?_⟩
      · intro operation member
        exact waiting operation (List.mem_append_left _ member)
      · rw [same]
        exact waiting final (List.mem_append_right _ (List.mem_singleton_self final))
  · rintro (⟨start, rfl, answer⟩ | ⟨⟨earlier, start, later, rfl, answer, waiting⟩, kept⟩)
    · exact ⟨operations, start, [], rfl, answer, by simp⟩
    · refine ⟨earlier, start, later ++ [last], by simp, answer, ?_⟩
      intro operation member
      rcases List.mem_append.mp member with inside | final
      · exact waiting operation inside
      · rw [List.mem_singleton.mp final]
        exact kept

/-- After any operations a target waits for a second exactly if one of them has put it down for this
second and none has ended that since. -/
theorem waits_after_iff_isBooked (operations : List (Operation δ)) :
    ((empty : Scheduler δ).after operations).Waits key second ↔ IsBooked operations key second := by
  induction operations using List.reverseRecOn with
  | nil =>
      have idle : ¬ (empty : Scheduler δ).Waits key second := by simp [Waits, phase?, entry?, empty]
      exact iff_of_false idle isBooked_nil
  | append_singleton operations last ih =>
      rw [after_concat, waits_apply (consistent_after operations), ih, isBooked_concat]

end Scheduler

end Schedule

end Intake
