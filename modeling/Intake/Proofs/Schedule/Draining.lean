/-
Module: Intake.Proofs.Schedule.Draining
Purpose: Emptying the buckets of the seconds that have begun hands targets out in the order of the agenda.
Main exports: Schedule.Appointment.rank, Schedule.Reflects.dueInOrder_eq, Schedule.Reflects.drained_eq,
  Schedule.Reflects.drain

The buckets that have begun, read one after the other, list their keys by second and number.  The agenda
sorts the same targets by second and number, and a list has only one order without ties.
-/
import Mathlib.Data.Prod.Lex
import Intake.Proofs.Schedule.Reflection

namespace Intake

/-- A list in strictly ascending order of a rank is the only result of sorting its members by an order
that compares their ranks. -/
theorem eq_mergeSort_of_perm {α : Type u} {β : Type v} [LinearOrder β] {before : α → α → Bool}
    {rank : α → β} {l m : List α} (members : l.Perm m)
    (ascending : l.Pairwise fun x y => rank x < rank y)
    (order : ∀ x ∈ m, ∀ y ∈ m, before x y = decide (rank x ≤ rank y)) : l = m.mergeSort before := by
  have byRank : m.mergeSort before = m.mergeSort fun x y => decide (rank x ≤ rank y) := by
    have same := List.map_mergeSort (f := id) (l := m) (r := before)
      (s := fun x y => decide (rank x ≤ rank y)) order
    rw [List.map_id, List.map_id] at same
    exact same
  have sorted : (m.mergeSort fun x y => decide (rank x ≤ rank y)).Pairwise
      fun x y => rank x ≤ rank y := by
    refine (List.pairwise_mergeSort ?_ ?_ m).imp of_decide_eq_true
    · intro x y z low high
      exact decide_eq_true (le_trans (of_decide_eq_true low) (of_decide_eq_true high))
    · intro x y
      rw [Bool.or_eq_true, decide_eq_true_iff, decide_eq_true_iff]
      exact le_total (rank x) (rank y)
  have distinct : (l.map rank).Nodup := by
    rw [List.Nodup, List.pairwise_map]
    exact ascending.imp fun less => ne_of_lt less
  have both := members.trans (List.mergeSort_perm m fun x y => decide (rank x ≤ rank y)).symm
  rw [byRank]
  refine both.eq_of_pairwise ?_ (ascending.imp le_of_lt) sorted
  intro x y hx hy low high
  exact List.inj_on_of_nodup_map distinct hx (both.mem_iff.mpr hy) (le_antisymm low high)

namespace Schedule

variable {δ : Type u} {s : Scheduler δ} {a : Agenda δ} {x : Appointment δ} {key : String}

/-! ### What the scheduler hands out

The entries handed out and the entries left are told apart from the two parts of the answer of a drain. -/

/-- An entry as it is handed out under a key. -/
def Due.ofEntry (key : String) (e : Entry δ) : Due δ := ⟨key, e.descriptor, e.current, e.attempts⟩

namespace Scheduler

/-- A target is handed out if it has an entry. -/
theorem fst_takeDue (entries : Table (Entry δ)) (key : String) :
    (takeDue entries key).1 = (entries.find? key).map (Due.ofEntry key) := by
  rw [takeDue]
  split
  · next missing => rw [missing, Option.map_none]
  · next e found =>
      rw [found, Option.map_some]
      rfl

/-- So are the targets of some keys, in the order of the keys. -/
theorem fst_takeAllDue (entries : Table (Entry δ)) (keys : List String) :
    (takeAllDue entries keys).1 =
      keys.filterMap fun k => (entries.find? k).map (Due.ofEntry k) := by
  induction keys generalizing entries with
  | nil => rfl
  | cons key rest ih =>
      have same : (fun k => ((takeDue entries key).2.find? k).map (Due.ofEntry k)) =
          fun k => (entries.find? k).map (Due.ofEntry k) := by
        funext k
        rw [find?_takeDue]
        split
        · -- Being marked changes nothing of what is handed out.
          rw [Option.map_map]
          rfl
        · rfl
      rw [takeAllDue]
      show (takeDue entries key).1.toList ++ (takeAllDue (takeDue entries key).2 rest).1 = _
      rw [ih, same, fst_takeDue]
      cases found : entries.find? key with
      | none => rw [List.filterMap_cons_none (by rw [found, Option.map_none])]; rfl
      | some e => rw [List.filterMap_cons_some (by rw [found, Option.map_some])]; rfl

/-- The table of entries stays in order. -/
theorem sorted_takeAllDue {entries : Table (Entry δ)} (h : entries.Sorted) (keys : List String) :
    (takeAllDue entries keys).2.Sorted := by
  induction keys generalizing entries with
  | nil => exact h
  | cons key rest ih =>
      have first : (takeDue entries key).2.Sorted := by
        rw [takeDue]
        split
        · exact h
        · exact h.put
      exact ih first

/-- The keys that have begun are those of the targets that wait for such a second. -/
theorem mem_dueBy (h : s.Consistent) (second : Int) :
    key ∈ s.buckets.dueBy second ↔ ∃ t, t ≤ second ∧ s.Waits key t :=
  h.listed.mem_dueBy second key

/-- No key is handed out twice by one drain. -/
theorem nodup_dueBy (h : s.Consistent) (second : Int) : (s.buckets.dueBy second).Nodup := by
  refine h.listed.ascending.pairwise_dueBy h.listed.once ?_
  intro t u less k inFirst l inSecond same
  rw [h.listed.placed] at inFirst
  rw [h.listed.placed, ← same] at inSecond
  exact absurd (inFirst.unique inSecond) (Int.ne_of_lt less)

/-- The keys handed out are those whose second has begun. -/
theorem map_key_drain (h : s.Consistent) (now : Instant) :
    (s.drain now).1.map Due.key = s.buckets.dueBy now.seconds := by
  show (takeAllDue s.entries (s.buckets.dueBy now.seconds)).1.map Due.key = _
  rw [fst_takeAllDue, List.map_filterMap]
  have present : ∀ k ∈ s.buckets.dueBy now.seconds,
      Option.map Due.key ((s.entries.find? k).map (Due.ofEntry k)) = some k := by
    intro k due
    obtain ⟨t, -, waits⟩ := (mem_dueBy h now.seconds).mp due
    obtain ⟨e, found, -⟩ := (s.waits_iff k t).mp waits
    rw [Scheduler.entry?] at found
    rw [found, Option.map_some, Option.map_some, Due.ofEntry]
  rw [List.filterMap_congr present, List.filterMap_some]

end Scheduler

/-! ### The order of the agenda

The agenda sorts the targets that are due by second and number.  The buckets list them in this order already,
as each bucket is in the order of the numbers. -/

namespace Appointment

/-- The second that a target waits for, and then its number. -/
def rank (x : Appointment δ) : Int ×ₗ Nat := toLex (x.second?.getD 0, x.serial)

/-- A target waits for the second of its phase. -/
theorem second?_eq_some_iff {second : Int} :
    x.second? = some second ↔ x.entry.phase = .scheduled second := by
  rw [second?]
  cases x.entry.phase with
  | idle => simp
  | due => simp
  | scheduled t => simp

/-- A target is due when its second has begun. -/
theorem isDueBy_iff {second : Int} :
    x.isDueBy second = true ↔ ∃ t, t ≤ second ∧ x.second? = some t := by
  rw [isDueBy]
  cases x.second? with
  | none => simp
  | some t => simp

/-- Among targets that wait, to come first is to have the lower rank. -/
theorem precedes_eq {x y : Appointment δ} {t u : Int} (hx : x.second? = some t)
    (hy : y.second? = some u) : x.precedes y = decide (x.rank ≤ y.rank) := by
  have order : x.rank ≤ y.rank ↔ t < u ∨ t = u ∧ x.serial ≤ y.serial := by
    rw [rank, rank, hx, hy, Prod.Lex.toLex_le_toLex]
    rfl
  rw [precedes, hx, hy, Bool.eq_iff_iff, decide_eq_true_iff, order]
  simp

end Appointment

namespace Reflects

open Appointment

/-- A target waits in the scheduler as it does in the agenda. -/
theorem waits_iff (h : Reflects s a) (second : Int) :
    s.Waits key second ↔ ∃ x, a.appointments.find? key = some x ∧ x.second? = some second := by
  rw [Scheduler.waits_iff]
  constructor
  · rintro ⟨e, found, waits⟩
    rw [h.entry?_eq] at found
    obtain ⟨x, there, rfl⟩ := Option.map_eq_some_iff.mp found
    exact ⟨x, there, second?_eq_some_iff.mpr waits⟩
  · rintro ⟨x, there, waits⟩
    exact ⟨x.entry, h.entry?_of_find? there, second?_eq_some_iff.mp waits⟩

/-- A target stands in a bucket that has begun exactly if the agenda takes it for due. -/
theorem mem_dueBy_iff (h : Reflects s a) (second : Int) (found : a.appointments.find? key = some x) :
    key ∈ s.buckets.dueBy second ↔ x.isDueBy second = true := by
  rw [Scheduler.mem_dueBy h.consistent, isDueBy_iff]
  simp only [h.waits_iff, found, Option.some.injEq, exists_eq_left']

/-- The targets of the buckets that have begun, bucket by bucket. -/
def dueInOrder (s : Scheduler δ) (a : Agenda δ) (second : Int) : List (Appointment δ) :=
  (s.buckets.dueBy second).filterMap a.appointments.find?

/-- They are all different, and stand in the order of their ranks. -/
theorem pairwise_dueInOrder (h : Reflects s a) (second : Int) :
    (dueInOrder s a second).Pairwise fun x y => x.rank < y.rank := by
  -- A key in a bucket has the second of the bucket in its rank.
  have rank_eq {t : Int} {k : String} (member : k ∈ s.buckets.keysAt t) {x : Appointment δ}
      (found : a.appointments.find? k = some x) : x.rank = toLex (t, a.serial k) := by
    rw [h.consistent.listed.placed, h.waits_iff] at member
    obtain ⟨y, there, waits⟩ := member
    rw [found] at there
    injection there with same
    rw [rank, Agenda.serial_of_find? found, same, waits, Option.getD_some]
  rw [dueInOrder, List.pairwise_filterMap]
  refine h.consistent.listed.ascending.pairwise_dueBy ?_ ?_
  · intro t
    refine (h.inOrder t).imp_of_mem ?_
    intro k l hk hl less x foundX y foundY
    rw [rank_eq hk foundX, rank_eq hl foundY, Prod.Lex.toLex_lt_toLex]
    exact Or.inr ⟨rfl, less⟩
  · intro t u less k hk l hl x foundX y foundY
    rw [rank_eq hk foundX, rank_eq hl foundY, Prod.Lex.toLex_lt_toLex]
    exact Or.inl less

/-- The targets of these buckets are those that are due. -/
theorem mem_dueInOrder (h : Reflects s a) (second : Int) :
    x ∈ dueInOrder s a second ↔ x ∈ a.appointments.values ∧ x.isDueBy second = true := by
  rw [dueInOrder, List.mem_filterMap, h.sorted.mem_values_iff]
  constructor
  · rintro ⟨k, listed, found⟩
    exact ⟨⟨k, found⟩, (h.mem_dueBy_iff second found).mp listed⟩
  · rintro ⟨⟨k, found⟩, due⟩
    exact ⟨k, (h.mem_dueBy_iff second found).mpr due, found⟩

/-- Reading the buckets that have begun is sorting the targets that are due. -/
theorem dueInOrder_eq (h : Reflects s a) (second : Int) :
    dueInOrder s a second =
      (a.appointments.values.filter (Appointment.isDueBy second)).mergeSort precedes := by
  have ranks := h.pairwise_dueInOrder second
  have members : (dueInOrder s a second).Perm
      (a.appointments.values.filter (Appointment.isDueBy second)) := by
    have distinct : (dueInOrder s a second).Nodup := ranks.imp fun less same => by
      rw [same] at less
      exact lt_irrefl _ less
    have values : a.appointments.values.Nodup :=
      h.sorted.nodup_values fun k v found => h.key_of_find? found
    rw [List.perm_ext_iff_of_nodup distinct (values.filter _)]
    intro x
    rw [h.mem_dueInOrder, List.mem_filter]
  apply eq_mergeSort_of_perm members ranks
  -- Only targets that wait are sorted, and on these the order is that of the ranks.
  intro x hx y hy
  obtain ⟨t, -, ht⟩ := isDueBy_iff.mp (List.mem_filter.mp hx).2
  obtain ⟨u, -, hu⟩ := isDueBy_iff.mp (List.mem_filter.mp hy).2
  exact precedes_eq ht hu

/-! ### One drain on both sides

Reading off the buckets that have begun and sorting what is due lead to the same answer and the same state. -/

/-- Both sides hand out the same targets in the same order. -/
theorem drained_eq (h : Reflects s a) (now : Instant) : (s.drain now).1 = (a.drain now).1 := by
  show (Scheduler.takeAllDue s.entries (s.buckets.dueBy now.seconds)).1 =
    ((a.appointments.values.filter (Appointment.isDueBy now.seconds)).mergeSort precedes).map
      Appointment.due
  rw [← h.dueInOrder_eq, Scheduler.fst_takeAllDue, dueInOrder, List.map_filterMap]
  congr 1
  funext k
  show (s.entry? k).map (Due.ofEntry k) = _
  rw [h.entry?_eq, Option.map_map]
  cases found : a.appointments.find? k with
  | none => rfl
  | some x =>
      rw [Option.map_some, Option.map_some, due, h.key_of_find? found]
      rfl

/-- Both sides mark the same targets. -/
theorem drain (h : Reflects s a) (now : Instant) : Reflects (s.drain now).2 (a.drain now).2 := by
  have serial_eq (k : String) : (a.drain now).2.serial k = a.serial k := by
    show ((((a.appointments.map _).find? k).map Appointment.serial).getD 0) = _
    rw [Table.find?_map, Agenda.serial, Option.map_map]
    congr 2
    funext x
    rw [Function.comp_apply]
    split
    · rfl
    · rfl
  have buckets : (s.drain now).2.buckets = s.buckets.after now.seconds := rfl
  constructor
  · exact h.consistent.drain now
  · apply Table.Sorted.ext
    · apply Scheduler.sorted_takeAllDue
      rw [h.entries]
      exact h.sorted.map _
    · have marked : (a.drain now).2.appointments.Sorted := h.sorted.map _
      exact marked.map _
    · intro k
      rw [← Scheduler.entry?, Scheduler.entry?_drain, h.entry?_eq, Table.find?_map]
      show _ = Option.map _ ((a.appointments.map _).find? k)
      rw [Table.find?_map, Option.map_map]
      cases found : a.appointments.find? k with
      | none => simp
      | some x =>
          simp only [Option.map_some, Function.comp_apply, h.mem_dueBy_iff now.seconds found]
          split
          · rfl
          · rfl
  · exact h.sorted.map _
  · rw [buckets]
    refine h.inOrder_of_sublist ?_ fun _ k _ => serial_eq k
    intro t
    rw [h.consistent.listed.ascending.keysAt_after]
    split
    · exact List.nil_sublist _
    · exact List.Sublist.refl _
  · intro k t waits
    rw [serial_eq]
    exact h.numbered k t ((h.consistent.waits_drain now t).mp waits).1

end Reflects

end Schedule

end Intake
