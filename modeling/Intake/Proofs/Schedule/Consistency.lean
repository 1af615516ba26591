/-
Module: Intake.Proofs.Schedule.Consistency
Purpose: The entries and the buckets of the scheduler agree in every state that operations lead to.
Main exports: Schedule.Scheduler.phase?, Schedule.Scheduler.Waits, Schedule.Scheduler.Consistent,
  Schedule.Scheduler.Consistent.apply, Schedule.Scheduler.consistent_after,
  Schedule.Scheduler.buckets_agree_with_entries

Where a target waits is kept twice: in the phase of its entry and in a bucket.  `Consistent` says that
the two are one relation; each operation has one lemma that it preserves it.
-/
import Intake.Proofs.Schedule.Buckets
import Intake.Schedule.History

namespace Intake

namespace Schedule

namespace Scheduler

variable {δ : Type u} {s s' : Scheduler δ} {key : String}

/-- Where a target stands, if there is one under a key. -/
def phase? (s : Scheduler δ) (key : String) : Option Phase := (s.entry? key).map Entry.phase

/-- A target is registered and waits for a second. -/
def Waits (s : Scheduler δ) (key : String) (second : Int) : Prop :=
  s.phase? key = some (.scheduled second)

/-- The buckets list exactly what the entries say, and every entry stands under its own key. -/
structure Consistent (s : Scheduler δ) : Prop where
  listed : Buckets.Hold s.Waits s.buckets
  own : ∀ key e, s.entry? key = some e → e.key = key

/-- A target waits for a second if its entry says so. -/
theorem waits_iff (s : Scheduler δ) (key : String) (second : Int) :
    s.Waits key second ↔ ∃ e, s.entry? key = some e ∧ e.phase = .scheduled second :=
  Option.map_eq_some_iff

/-- A target waits for one second at most. -/
theorem Waits.unique {t u : Int} (one : s.Waits key t) (two : s.Waits key u) : t = u := by
  rw [Waits, one] at two
  injection two with same
  injection same

/-- Without targets there is nothing to agree about. -/
theorem consistent_empty : (empty : Scheduler δ).Consistent where
  listed := by
    apply Buckets.Hold.nil
    intro key second waits
    simp [Waits, phase?, entry?, empty] at waits
  own := by
    intro key e found
    simp [empty, entry?] at found

/-! ### One entry changed

An operation changes one entry and at most the bucket that it waits in.  What waits otherwise is not touched.
-/

/-- The entry of one key is put in place, and the others stay. -/
@[simp] theorem entry?_put (entries : Table (Entry δ)) (buckets : Buckets) (e : Entry δ)
    (k : String) :
    entry? ⟨entries.put key e, buckets⟩ k = if k = key then some e else entries.find? k :=
  Table.find?_put entries key e k

/-- The entry of one key is gone, and the others stay. -/
@[simp] theorem entry?_erase (entries : Table (Entry δ)) (buckets : Buckets) (k : String) :
    entry? ⟨entries.erase key, buckets⟩ k = if k = key then none else entries.find? k :=
  Table.find?_erase entries key k

/-- Where targets stand after one entry is put in place. -/
theorem phase?_put (entries : Table (Entry δ)) (buckets : Buckets) (e : Entry δ) (k : String) :
    phase? ⟨entries.put key e, buckets⟩ k =
      if k = key then some e.phase else (entries.find? k).map Entry.phase := by
  rw [phase?, entry?_put]
  split
  · rfl
  · rfl

/-- An entry of its own key keeps every entry under its own key. -/
theorem own_put (own : ∀ key e, s.entry? key = some e → e.key = key) {e : Entry δ}
    (named : e.key = key) (buckets : Buckets) :
    ∀ k x, entry? ⟨s.entries.put key e, buckets⟩ k = some x → x.key = k := by
  intro k x found
  rw [entry?_put] at found
  by_cases hk : k = key
  · rw [if_pos hk] at found
    injection found with same
    rw [← same, named, hk]
  · rw [if_neg hk] at found
    exact own k x found

/-- An entry that waits as the one before it did can take its place. -/
theorem Consistent.put (h : s.Consistent) {e : Entry δ} (named : e.key = key)
    (same : ∀ second, e.phase = .scheduled second ↔ s.Waits key second) :
    Consistent ⟨s.entries.put key e, s.buckets⟩ where
  listed := by
    apply h.listed.congr
    intro k second
    rw [Waits, Waits, phase?_put]
    by_cases hk : k = key
    · rw [if_pos hk, hk, Option.some.injEq]
      exact (same second).symm
    · rw [if_neg hk]
      rfl
  own := own_put h.own named s.buckets

/-! ### The operations

One lemma for each operation that succeeds.  A refused operation changes nothing. -/

/-- A new target waits for nothing and is in no bucket. -/
theorem Consistent.register (h : s.Consistent) {least greatest : Duration} {descriptor : δ}
    (done : s.register key least greatest descriptor = .ok s') : s'.Consistent := by
  rw [Scheduler.register] at done
  split at done
  · cases done
  · next free =>
      cases done
      have absent : s.entry? key = none := by
        simpa [Table.contains, entry?] using free
      apply h.put (Entry.create_key key least greatest descriptor)
      intro second
      rw [Waits, phase?, absent]
      simp

/-- What an entry waits for is taken out of the buckets, and nothing else. -/
theorem Consistent.unlink (h : s.Consistent) {e : Entry δ} (found : s.entry? key = some e) :
    Buckets.Hold (fun k t => s.Waits k t ∧ k ≠ key) (unlink s.buckets key e.phase) := by
  have stands : s.phase? key = some e.phase := by rw [phase?, found, Option.map_some]
  have idle (other : ∀ second, e.phase ≠ .scheduled second) :
      Buckets.Hold (fun k t => s.Waits k t ∧ k ≠ key) s.buckets := by
    apply h.listed.congr
    intro k t
    refine ⟨fun waits => ⟨waits, ?_⟩, And.left⟩
    rintro rfl
    rw [Waits, stands] at waits
    exact other t (Option.some.inj waits)
  rw [Scheduler.unlink.eq_def]
  split
  · next second phase =>
      apply (h.listed.remove key second).congr
      intro k t
      constructor
      · rintro ⟨waits, other⟩
        refine ⟨waits, fun same => other ⟨same, ?_⟩⟩
        subst same
        rw [Waits, stands, phase] at waits
        injection waits with waits
        injection waits with waits
        exact waits.symm
      · rintro ⟨waits, other⟩
        exact ⟨waits, fun same => other same.1⟩
  · next other => exact idle other

/-- A target that is removed is taken out of its bucket, too. -/
theorem Consistent.unregister (h : s.Consistent) (done : s.unregister key = .ok s') :
    s'.Consistent := by
  rw [Scheduler.unregister] at done
  cases found : s.entry? key with
  | none =>
      rw [found] at done
      cases done
  | some e =>
      rw [found] at done
      cases done
      constructor
      · apply (h.unlink found).congr
        intro k t
        rw [Waits, Waits, phase?, phase?, entry?_erase]
        by_cases hk : k = key
        · simp [hk]
        · rw [if_neg hk]
          simp [hk, entry?]
      · intro k x there
        rw [entry?_erase] at there
        split at there
        · cases there
        · exact h.own k x there

/-- A target that is put down for a second is moved to the bucket of that second. -/
theorem Consistent.scheduleNext (h : s.Consistent) {start : Instant} {second : Int}
    (done : s.scheduleNext key start = .ok (second, s')) : s'.Consistent := by
  rw [Scheduler.scheduleNext] at done
  cases found : s.entry? key with
  | none =>
      rw [found] at done
      cases done
  | some e =>
      rw [found] at done
      cases done
      constructor
      · -- The key is taken out first, so that it is free when it is added.
        have free : ∀ t, ¬ (s.Waits key t ∧ key ≠ key) := fun t waits => waits.2 rfl
        apply ((h.unlink found).push free _).congr
        intro k t
        rw [Waits, Waits, phase?_put]
        by_cases hk : k = key
        · simp [hk, eq_comm]
        · rw [if_neg hk]
          simp [hk, phase?, entry?]
      · have named : { e with phase := Phase.scheduled (triggerSecond start e.current) }.key = key :=
          h.own key e found
        exact own_put h.own named _

/-- A growth step concerns no bucket. -/
theorem Consistent.grow (h : s.Consistent) {current : Duration}
    (done : s.grow key = .ok (current, s')) : s'.Consistent := by
  rw [Scheduler.grow] at done
  cases found : s.entry? key with
  | none =>
      rw [found] at done
      cases done
  | some e =>
      rw [found] at done
      simp only [Except.ok.injEq, Prod.mk.injEq] at done
      obtain ⟨-, rfl⟩ := done
      have named : e.grow.key = key := by rw [Entry.grow_key, h.own key e found]
      apply h.put named
      intro second
      rw [Waits, phase?, found, Option.map_some, Option.some.injEq, Entry.grow_phase]

/-- Neither does a reset. -/
theorem Consistent.reset (h : s.Consistent) (done : s.reset key = .ok s') : s'.Consistent := by
  rw [Scheduler.reset] at done
  cases found : s.entry? key with
  | none =>
      rw [found] at done
      cases done
  | some e =>
      rw [found] at done
      cases done
      have named : e.reset.key = key := by rw [Entry.reset_key, h.own key e found]
      apply h.put named
      intro second
      rw [Waits, phase?, found, Option.map_some, Option.some.injEq, Entry.reset_phase]

/-- Settling moves a target from due to idle, and it waits in neither. -/
theorem Consistent.settle (h : s.Consistent) {productive changed : Bool}
    (done : s.settle key productive = .ok (changed, s')) : s'.Consistent := by
  rw [Scheduler.settle] at done
  cases found : s.entry? key with
  | none =>
      rw [found] at done
      cases done
  | some e =>
      rw [found] at done
      dsimp only at done
      split at done
      · next due =>
          cases done
          have named : (if productive then e.reset else e.grow).key = key := by
            rw [apply_ite Entry.key, Entry.reset_key, Entry.grow_key, ite_self, h.own key e found]
          have idle : { (if productive then e.reset else e.grow) with phase := .idle }.key = key :=
            named
          apply h.put idle
          intro second
          rw [Waits, phase?, found, Option.map_some, due]
          simp
      · cases done
        exact h

/-! ### Draining

A drain takes all buckets that have begun and marks the targets in them as due. -/

/-- An entry that was handed out. -/
def markDue (e : Entry δ) : Entry δ := { e with phase := .due }

/-- Handing out one target marks it, and no other. -/
theorem find?_takeDue (entries : Table (Entry δ)) (key k : String) :
    (takeDue entries key).2.find? k =
      if k = key then (entries.find? k).map markDue else entries.find? k := by
  rw [takeDue]
  cases found : entries.find? key with
  | none =>
      by_cases hk : k = key
      · rw [if_pos hk, hk, found, Option.map_none]
      · rw [if_neg hk]
  | some e =>
      dsimp only
      rw [Table.find?_put]
      by_cases hk : k = key
      · rw [if_pos hk, if_pos hk, hk, found, Option.map_some, markDue]
      · rw [if_neg hk, if_neg hk]

/-- Handing out targets marks all of these, and no other. -/
theorem find?_takeAllDue (entries : Table (Entry δ)) (keys : List String) (k : String) :
    (takeAllDue entries keys).2.find? k =
      if k ∈ keys then (entries.find? k).map markDue else entries.find? k := by
  induction keys generalizing entries with
  | nil => simp [takeAllDue]
  | cons key rest ih =>
      rw [takeAllDue]
      dsimp only
      rw [ih, find?_takeDue]
      by_cases hk : k = key
      · -- Marking an entry twice is marking it once.
        have twice : ((entries.find? k).map markDue).map markDue = (entries.find? k).map markDue := by
          rw [Option.map_map]
          rfl
        rw [if_pos hk, twice, ite_self, if_pos (by simp [hk])]
      · by_cases later : k ∈ rest
        · rw [if_pos later, if_neg hk, if_pos (List.mem_cons_of_mem _ later)]
        · rw [if_neg later, if_neg hk, if_neg (by simp [hk, later])]

/-- The targets that are marked are those in a bucket that has begun. -/
theorem entry?_drain (s : Scheduler δ) (now : Instant) (k : String) :
    entry? (s.drain now).2 k =
      if k ∈ s.buckets.dueBy now.seconds then (s.entry? k).map markDue else s.entry? k :=
  find?_takeAllDue s.entries _ k

/-- A drain ends the waiting of exactly the targets whose second has begun. -/
theorem Consistent.waits_drain (h : s.Consistent) (now : Instant) (second : Int) :
    (s.drain now).2.Waits key second ↔ s.Waits key second ∧ now.seconds < second := by
  rw [Waits, phase?, entry?_drain]
  have due := h.listed.mem_dueBy now.seconds key
  split
  · next listed =>
      obtain ⟨t, begun, waits⟩ := due.mp listed
      constructor
      · intro impossible
        rw [Option.map_map] at impossible
        obtain ⟨e, -, marked⟩ := Option.map_eq_some_iff.mp impossible
        cases marked
      · rintro ⟨other, later⟩
        have same : t = second := waits.unique other
        omega
  · next unlisted =>
      refine ⟨fun waits => ⟨waits, ?_⟩, And.left⟩
      apply Int.not_le.mp
      intro begun
      exact unlisted (due.mpr ⟨second, begun, waits⟩)

/-- Afterwards none of them waits, and none is in a bucket. -/
theorem Consistent.drain (h : s.Consistent) (now : Instant) : (s.drain now).2.Consistent where
  listed := by
    apply (h.listed.after now.seconds).congr
    intro k t
    exact (h.waits_drain now t).symm
  own := by
    intro k e found
    rw [entry?_drain] at found
    split at found
    · obtain ⟨old, there, rfl⟩ := Option.map_eq_some_iff.mp found
      exact h.own k old there
    · exact h.own k e found

/-! ### Runs

What one operation keeps is kept by any number of them. -/

/-- Every operation keeps entries and buckets in agreement. -/
theorem Consistent.apply (h : s.Consistent) (operation : Operation δ) :
    (s.apply operation).2.Consistent := by
  cases operation with
  | register key least greatest descriptor =>
      rw [Scheduler.apply]
      split
      · next done => exact h.register done
      · exact h
  | unregister key =>
      rw [Scheduler.apply]
      split
      · next done => exact h.unregister done
      · exact h
  | scheduleNext key start =>
      rw [Scheduler.apply]
      split
      · next done => exact h.scheduleNext done
      · exact h
  | drain now => exact h.drain now
  | grow key =>
      rw [Scheduler.apply]
      split
      · next done => exact h.grow done
      · exact h
  | reset key =>
      rw [Scheduler.apply]
      split
      · next done => exact h.reset done
      · exact h
  | settle key productive =>
      rw [Scheduler.apply]
      split
      · next done => exact h.settle done
      · exact h
  | clear => exact consistent_empty

/-- Neither operations in turn nor refusals among them break the agreement. -/
theorem Consistent.after (h : s.Consistent) (operations : List (Operation δ)) :
    (s.after operations).Consistent := by
  induction operations generalizing s with
  | nil => exact h
  | cons operation rest ih => exact ih (h.apply operation)

/-- The agreement holds in every state that operations lead to from the empty scheduler. -/
theorem consistent_after (operations : List (Operation δ)) :
    ((empty : Scheduler δ).after operations).Consistent :=
  consistent_empty.after operations

/-- After any operations a key stands in the bucket of a second exactly if its entry waits for that
second, and it stands there once.  Seconds have one bucket each, no bucket is empty, and entries stand
under their own keys.  So a target is in one bucket at most, in none while it is idle or due, and no
bucket names a key without an entry. -/
theorem buckets_agree_with_entries (operations : List (Operation δ)) :
    let s := (empty : Scheduler δ).after operations
    (∀ key second, key ∈ s.buckets.keysAt second ↔
        ∃ e, s.entry? key = some e ∧ e.phase = .scheduled second) ∧
      (∀ key second, key ∈ s.buckets.keysAt second → (s.buckets.keysAt second).count key = 1) ∧
      (∀ second keys, (second, keys) ∈ s.buckets → keys ≠ [] ∧ keys = s.buckets.keysAt second) ∧
      s.buckets.Ascending ∧
      (∀ key e, s.entry? key = some e → e.key = key) ∧
      (∀ key t u, key ∈ s.buckets.keysAt t → key ∈ s.buckets.keysAt u → t = u) ∧
      (∀ key e, s.entry? key = some e → e.phase = .idle ∨ e.phase = .due →
        ∀ second, key ∉ s.buckets.keysAt second) ∧
      (∀ second keys key, (second, keys) ∈ s.buckets → key ∈ keys →
        ∃ e, s.entry? key = some e) := by
  intro s
  have h : s.Consistent := consistent_after operations
  have placed (key : String) (second : Int) : key ∈ s.buckets.keysAt second ↔
      ∃ e, s.entry? key = some e ∧ e.phase = .scheduled second :=
    (h.listed.placed key second).trans (waits_iff s key second)
  refine ⟨placed, ?_, ?_, h.listed.ascending, h.own, ?_, ?_, ?_⟩
  · intro key second listed
    rw [(h.listed.once second).count, if_pos listed]
  · intro second keys member
    exact ⟨h.listed.filled _ member, (h.listed.ascending.keysAt_of_mem member).symm⟩
  · intro key t u one two
    exact ((h.listed.placed key t).mp one).unique ((h.listed.placed key u).mp two)
  · intro key e found resting second listed
    obtain ⟨other, there, waiting⟩ := (placed key second).mp listed
    rw [found] at there
    injection there with same
    rw [same, waiting] at resting
    rcases resting with impossible | impossible
    · cases impossible
    · cases impossible
  · intro second keys key member listed
    rw [← h.listed.ascending.keysAt_of_mem member] at listed
    obtain ⟨e, found, -⟩ := (placed key second).mp listed
    exact ⟨e, found⟩

end Scheduler

end Schedule

end Intake
