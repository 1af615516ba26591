/-
Module: Intake.Proofs.Schedule.Reflection
Purpose: When a scheduler with buckets and an agenda without them stand for the same targets.
Main exports: Schedule.Agenda.serial, Schedule.Reflects, Schedule.Reflects.register,
  Schedule.Reflects.unregister, Schedule.Reflects.scheduleNext, Schedule.Reflects.adjusted

The entries are the same on both sides, and inside a bucket the keys stand in the order of the numbers
that the agenda has given to their schedulings.  Each operation that hands nothing out has one lemma;
draining is treated on its own.
-/
import Mathlib.Data.List.Nodup
import Intake.Proofs.Table
import Intake.Proofs.Schedule.Waiting

namespace Intake

/-! ### Tables whose values are mapped

The entries of the scheduler are those of the agenda without their numbers.  Putting and erasing go with
leaving the numbers out. -/

namespace Table

variable {α β : Type u} {t : Table α} {key : String} {value : α} {f : String → α → β}

/-- Putting a value and mapping it is mapping the others and putting what it is mapped to. -/
theorem Sorted.map_put (h : t.Sorted) : (t.put key value).map f = (t.map f).put key (f key value) := by
  apply Sorted.ext (h.put.map f) (h.map f).put
  intro k
  rw [find?_map, find?_put, find?_put, find?_map]
  split
  · next same => rw [same, Option.map_some]
  · rfl

/-- Erasing goes with mapping. -/
theorem Sorted.map_erase (h : t.Sorted) : (t.erase key).map f = (t.map f).erase key := by
  apply Sorted.ext (h.erase.map f) (h.map f).erase
  intro k
  rw [find?_map, find?_erase, find?_erase, find?_map]
  split
  · rfl
  · rfl

end Table

namespace Schedule

variable {δ : Type u} {s : Scheduler δ} {a a' : Agenda δ} {x : Appointment δ} {key : String}

/-- The number of the last scheduling of a target. -/
def Agenda.serial (a : Agenda δ) (key : String) : Nat :=
  ((a.appointments.find? key).map Appointment.serial).getD 0

/-- The number of a target is that of its appointment. -/
theorem Agenda.serial_of_find? (found : a.appointments.find? key = some x) :
    a.serial key = x.serial := by
  rw [serial, found, Option.map_some, Option.getD_some]

/-- The scheduler has the entries of the agenda, and each of its buckets lists its keys in the order of
their numbers. -/
structure Reflects (s : Scheduler δ) (a : Agenda δ) : Prop where
  consistent : s.Consistent
  entries : s.entries = a.appointments.map fun _ x => x.entry
  sorted : a.appointments.Sorted
  inOrder : ∀ second, (s.buckets.keysAt second).Pairwise fun k l => a.serial k < a.serial l
  numbered : ∀ key second, s.Waits key second → a.serial key < a.nextSerial

namespace Reflects

/-- An empty scheduler reflects an empty agenda. -/
theorem empty : Reflects (Scheduler.empty : Scheduler δ) Agenda.empty where
  consistent := Scheduler.consistent_empty
  entries := rfl
  sorted := Table.sorted_empty
  inOrder := fun _ => List.Pairwise.nil
  numbered := by
    intro key second waits
    simp [Scheduler.Waits, Scheduler.phase?, Scheduler.entry?, Scheduler.empty] at waits

/-- The entry of a target is that of its appointment. -/
theorem entry?_eq (h : Reflects s a) (key : String) :
    s.entry? key = (a.appointments.find? key).map Appointment.entry := by
  rw [Scheduler.entry?, h.entries, Table.find?_map]

/-- A target with an appointment has its entry. -/
theorem entry?_of_find? (h : Reflects s a) (found : a.appointments.find? key = some x) :
    s.entry? key = some x.entry := by
  rw [h.entry?_eq, found, Option.map_some]

/-- A target without one has none. -/
theorem entry?_of_missing (h : Reflects s a) (missing : a.appointments.find? key = none) :
    s.entry? key = none := by
  rw [h.entry?_eq, missing, Option.map_none]

/-- The same keys are known on both sides. -/
theorem contains_eq (h : Reflects s a) (key : String) :
    s.entries.contains key = (a.appointments.find? key).isSome := by
  rw [Table.contains, ← Scheduler.entry?, h.entry?_eq, Option.isSome_map]

/-- Every appointment is under its own key. -/
theorem key_of_find? (h : Reflects s a) (found : a.appointments.find? key = some x) :
    x.entry.key = key :=
  h.consistent.own key x.entry (h.entry?_of_find? found)

/-- Numbers stay in order where buckets only lose keys and the remaining ones keep their numbers. -/
theorem inOrder_of_sublist (h : Reflects s a) {buckets : Buckets}
    (fewer : ∀ t, (buckets.keysAt t).Sublist (s.buckets.keysAt t))
    (same : ∀ t, ∀ k ∈ buckets.keysAt t, a'.serial k = a.serial k) (second : Int) :
    (buckets.keysAt second).Pairwise fun k l => a'.serial k < a'.serial l := by
  refine ((h.inOrder second).sublist (fewer second)).imp_of_mem ?_
  intro k l hk hl less
  rw [same second k hk, same second l hl]
  exact less

/-! ### Operations on one target

An operation that leaves the second of a target alone changes its entry on both sides, and no bucket and no
number. -/

/-- Another entry keeps the number of the target. -/
theorem serial_putEntry {e : Entry δ} (found : a.appointments.find? key = some x)
    (named : e.key = key) (k : String) : (a.putEntry x e).serial k = a.serial k := by
  rw [Agenda.putEntry, named, Agenda.serial, Agenda.serial, Table.find?_put]
  split
  · next same => rw [same, found, Option.map_some, Option.map_some]
  · rfl

/-- Another entry for a target that waits, or does not, as before. -/
theorem adjusted (h : Reflects s a) (found : a.appointments.find? key = some x) {e : Entry δ}
    (named : e.key = key)
    (same : ∀ second, e.phase = .scheduled second ↔ x.entry.phase = .scheduled second) :
    Reflects ⟨s.entries.put key e, s.buckets⟩ (a.putEntry x e) where
  consistent := by
    apply h.consistent.put named
    intro second
    rw [same, Scheduler.Waits, Scheduler.phase?, h.entry?_of_find? found, Option.map_some,
      Option.some.injEq]
  entries := by
    rw [Agenda.putEntry, named, h.sorted.map_put, ← h.entries]
  sorted := h.sorted.put
  inOrder := h.inOrder_of_sublist (fun _ => List.Sublist.refl _)
    fun _ k _ => serial_putEntry found named k
  numbered := by
    intro k second waits
    rw [Scheduler.waits_put_of_phase (h.entry?_of_find? found) (same second)] at waits
    rw [serial_putEntry found named]
    exact h.numbered k second waits

/-- A new target waits for nothing yet. -/
theorem register (h : Reflects s a) (missing : a.appointments.find? key = none) {e : Entry δ}
    (named : e.key = key) (idle : e.phase = .idle) (serial : Nat) :
    Reflects ⟨s.entries.put key e, s.buckets⟩
      { a with appointments := a.appointments.put key ⟨e, serial⟩ } := by
  have free : s.entry? key = none := h.entry?_of_missing missing
  have waits_iff (k : String) (second : Int) :
      Scheduler.Waits ⟨s.entries.put key e, s.buckets⟩ k second ↔ s.Waits k second := by
    rw [Scheduler.waits_put]
    split
    · next here =>
        rw [here, idle]
        simp [Scheduler.not_waits_of_entry?_eq_none free]
    · rfl
  have others {k : String} {second : Int} (waits : s.Waits k second) : k ≠ key := by
    rintro rfl
    exact Scheduler.not_waits_of_entry?_eq_none free waits
  have serial_eq {k : String} (other : k ≠ key) :
      Agenda.serial { a with appointments := a.appointments.put key ⟨e, serial⟩ } k =
        a.serial k := by
    rw [Agenda.serial, Agenda.serial, Table.find?_put, if_neg other]
  constructor
  · apply h.consistent.put named
    intro second
    rw [← waits_iff, Scheduler.waits_put, if_pos rfl]
  · rw [h.sorted.map_put, ← h.entries]
  · exact h.sorted.put
  · refine h.inOrder_of_sublist (fun _ => List.Sublist.refl _) ?_
    intro t k member
    exact serial_eq (others ((h.consistent.listed.placed k t).mp member))
  · intro k second waits
    rw [waits_iff] at waits
    rw [serial_eq (others waits)]
    exact h.numbered k second waits

/-! ### Operations that take a target out of its bucket

Before a target is removed or put down anew, its key is taken out of the bucket it was in.  The keys that stay
keep their order. -/

/-- The other keys stay in their order. -/
theorem keysAt_unlink_sublist (h : Reflects s a) (phase : Phase) (t : Int) :
    ((Scheduler.unlink s.buckets key phase).keysAt t).Sublist (s.buckets.keysAt t) := by
  cases phase with
  | idle => exact List.Sublist.refl _
  | due => exact List.Sublist.refl _
  | scheduled second =>
      rw [Scheduler.unlink, h.consistent.listed.ascending.keysAt_remove]
      split
      · next same =>
          rw [same]
          exact List.filter_sublist
      · exact List.Sublist.refl _

/-- The key itself is in no bucket any more. -/
theorem ne_of_mem_unlink (h : Reflects s a) {e : Entry δ} (found : s.entry? key = some e)
    {t : Int} {k : String} (member : k ∈ (Scheduler.unlink s.buckets key e.phase).keysAt t) :
    k ≠ key :=
  (((h.consistent.unlink found).placed k t).mp member).2

/-- A target that is removed is gone on both sides. -/
theorem unregister (h : Reflects s a) (found : a.appointments.find? key = some x) :
    Reflects ⟨s.entries.erase key, Scheduler.unlink s.buckets key x.entry.phase⟩
      { a with appointments := a.appointments.erase key } := by
  have entry : s.entry? key = some x.entry := h.entry?_of_find? found
  have serial_eq {k : String} (other : k ≠ key) :
      Agenda.serial { a with appointments := a.appointments.erase key } k = a.serial k := by
    rw [Agenda.serial, Agenda.serial, Table.find?_erase, if_neg other]
  constructor
  · have done : s.unregister key =
        .ok ⟨s.entries.erase key, Scheduler.unlink s.buckets key x.entry.phase⟩ := by
      rw [Scheduler.unregister, entry]
    exact h.consistent.unregister done
  · rw [h.sorted.map_erase, ← h.entries]
  · exact h.sorted.erase
  · refine h.inOrder_of_sublist (h.keysAt_unlink_sublist _) ?_
    intro t k member
    exact serial_eq (h.ne_of_mem_unlink entry member)
  · intro k second waits
    rw [Scheduler.waits_erase] at waits
    rw [serial_eq waits.1]
    exact h.numbered k second waits.2

/-- A target that is scheduled gets a number above all others, and the last place in its bucket. -/
theorem scheduleNext (h : Reflects s a) (found : a.appointments.find? key = some x)
    (start : Instant) :
    Reflects
      ⟨s.entries.put key
          { x.entry with phase := .scheduled (triggerSecond start x.entry.current) },
        Buckets.push (triggerSecond start x.entry.current) key
          (Scheduler.unlink s.buckets key x.entry.phase)⟩
      (a.scheduleAt x (triggerSecond start x.entry.current)) := by
  have entry : s.entry? key = some x.entry := h.entry?_of_find? found
  have named : x.entry.key = key := h.key_of_find? found
  generalize last : triggerSecond start x.entry.current = second
  have serial_eq (k : String) :
      (a.scheduleAt x second).serial k = if k = key then a.nextSerial else a.serial k := by
    rw [Agenda.scheduleAt, named, Agenda.serial, Agenda.serial, Table.find?_put]
    split
    · rfl
    · rfl
  have unlinked := h.consistent.unlink entry
  have kept (t : Int) : ((Scheduler.unlink s.buckets key x.entry.phase).keysAt t).Pairwise
      fun k l => (a.scheduleAt x second).serial k < (a.scheduleAt x second).serial l := by
    refine h.inOrder_of_sublist (h.keysAt_unlink_sublist _) ?_ t
    intro t k member
    rw [serial_eq, if_neg (h.ne_of_mem_unlink entry member)]
  constructor
  · have done : s.scheduleNext key start =
        .ok (second,
          ⟨s.entries.put key { x.entry with phase := .scheduled second },
            Buckets.push second key (Scheduler.unlink s.buckets key x.entry.phase)⟩) := by
      rw [Scheduler.scheduleNext, entry, ← last]
    exact h.consistent.scheduleNext done
  · rw [Agenda.scheduleAt, named, h.sorted.map_put, ← h.entries]
  · exact h.sorted.put
  · intro t
    rw [unlinked.ascending.keysAt_push]
    split
    · refine List.pairwise_append.mpr ⟨kept second, List.pairwise_singleton _ _, ?_⟩
      intro k member l single
      obtain ⟨waits, other⟩ := (unlinked.placed k second).mp member
      rw [List.mem_singleton.mp single, serial_eq, serial_eq, if_neg other, if_pos rfl]
      exact h.numbered k second waits
    · exact kept t
  · intro k t waits
    rw [Scheduler.waits_put] at waits
    rw [serial_eq]
    split
    · exact Nat.lt_succ_self a.nextSerial
    · next other =>
        rw [if_neg other] at waits
        exact Nat.lt_succ_of_lt (h.numbered k t waits)

end Reflects

end Schedule

end Intake
