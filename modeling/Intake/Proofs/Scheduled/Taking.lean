/-
Module: Intake.Proofs.Scheduled.Taking
Purpose: The targets of a scheduled receiver are taken all at once or not at all, and are then due.
Main exports: Scheduled.Receiver.registerTargets_eq_takeTargets, Scheduled.exists_firstTaken,
  Scheduled.Took.drain_eq, Scheduled.targets_taken_all_or_none

All keys are looked at before the first target is taken.  What the first pass looks for is just what would make
the second one fail, so behind it only the calendar can stop a target.
-/
import Intake.Proofs.Scheduled.Registration

namespace Intake

namespace Scheduled

open Schedule

variable {δ : Type u} {settings : PollSettings} {now : Instant} {s start : Scheduler δ}
  {pending taken : List (Registration δ)} {receiver next : Receiver δ}

/-! ### What is left behind

A receiver that fails to take its targets leaves behind the scheduler that it had come to by then.  So taking
is followed target by target, with this scheduler kept at the failure. -/

/-- Taking one target, with the scheduler that is left behind forgotten. -/
theorem registerOne_eq_takeOne (settings : PollSettings) (now : Instant) (s : Scheduler δ)
    (r : Registration δ) :
    registerOne settings now s r =
      (takeOne settings now s r).1.map fun _ => (takeOne settings now s r).2 := by
  simp only [takeOne]
  cases registerOne settings now s r with
  | ok taken => rfl
  | error failure =>
      cases s.register r.key (r.least.getD settings.least) (r.greatest.getD settings.greatest) r.target with
      | ok registered => rfl
      | error _ => rfl

/-- A fold that forgets the scheduler at the first failure takes the same targets. -/
theorem foldlM_registerOne (settings : PollSettings) (now : Instant) (s : Scheduler δ)
    (pending : List (Registration δ)) :
    pending.foldlM (registerOne settings now) s =
      (takeInTurn settings now s pending).1.map fun _ => (takeInTurn settings now s pending).2 := by
  induction pending generalizing s with
  | nil => rfl
  | cons r rest ih =>
      rw [List.foldlM_cons, registerOne_eq_takeOne, takeInTurn]
      cases takeOne settings now s r with
      | mk answer left =>
          cases answer with
          | error failure => rfl
          | ok _ => exact ih left

/-- Taking all targets, with the scheduler that is left behind forgotten. -/
theorem Receiver.registerTargets_eq_takeTargets (receiver : Receiver δ) (now : Instant) :
    receiver.registerTargets now =
      (receiver.takeTargets now).1.map fun _ => (receiver.takeTargets now).2 := by
  rw [registerTargets, takeTargets]
  cases firstTaken? receiver.scheduler [] receiver.pending with
  | some key => rfl
  | none =>
      simp only [foldlM_registerOne]
      cases (takeInTurn receiver.settings now receiver.scheduler receiver.pending).1 with
      | error cause => rfl
      | ok _ => rfl

/-- Where taking succeeds, nothing else is left behind. -/
theorem Receiver.takeTargets_of_registerTargets (done : receiver.registerTargets now = .ok next) :
    receiver.takeTargets now = (.ok (), next) := by
  rw [registerTargets_eq_takeTargets] at done
  cases taken : receiver.takeTargets now with
  | mk answer left =>
      rw [taken] at done
      cases answer with
      | error cause => cases done
      | ok _ =>
          injection done with same
          exact congrArg (Prod.mk _) same

/-! ### The keys that are looked at

Before any target is registered, the keys of all are looked at.  The first that is taken already, or comes a
second time, stops everything. -/

/-- Keys that are all free and all different. -/
def KeysFree (s : Scheduler δ) (pending : List (Registration δ)) : Prop :=
  (∀ r ∈ pending, s.entry? r.key = none) ∧ (pending.map (·.key)).Nodup

instance (s : Scheduler δ) (pending : List (Registration δ)) : Decidable (KeysFree s pending) :=
  decidable_of_iff ((∀ r ∈ pending, (s.entry? r.key).isNone = true) ∧ (pending.map (·.key)).Nodup)
    (by simp [KeysFree])

/-- A key that is in use already or that repeats one of those before it. -/
def KeyTaken (s : Scheduler δ) (earlier : List (Registration δ)) (key : String) : Prop :=
  (s.entry? key).isSome = true ∨ key ∈ earlier.map (·.key)

/-- One more key is free with the others if it is not taken. -/
theorem keysFree_append_singleton {r : Registration δ} :
    KeysFree s (taken ++ [r]) ↔ KeysFree s taken ∧ ¬ KeyTaken s taken r.key := by
  have last : ((taken ++ [r]).map (·.key)).Nodup ↔
      r.key ∉ taken.map (·.key) ∧ (taken.map (·.key)).Nodup := by
    rw [List.map_append, List.map_singleton, ← List.concat_eq_append, List.nodup_concat]
  rw [KeysFree, KeysFree, KeyTaken, not_or, Option.not_isSome_iff_eq_none, last,
    List.forall_mem_append, List.forall_mem_singleton]
  tauto

/-- The first pass stops at the first key that is taken. -/
theorem exists_firstTaken (free : KeysFree s taken) (stuck : ¬ KeysFree s (taken ++ pending))
    {earlier : List String} (known : ∀ key, key ∈ earlier ↔ key ∈ taken.map (·.key)) :
    ∃ before r later, pending = before ++ r :: later ∧ KeysFree s (taken ++ before) ∧
      KeyTaken s (taken ++ before) r.key ∧ firstTaken? s earlier pending = some r.key := by
  induction pending generalizing taken earlier with
  | nil =>
      rw [List.append_nil] at stuck
      exact absurd free stuck
  | cons r rest ih =>
      have looked : (s.entries.contains r.key = true ∨ r.key ∈ earlier) ↔ KeyTaken s taken r.key :=
        or_congr Iff.rfl (known r.key)
      by_cases used : KeyTaken s taken r.key
      · refine ⟨[], r, rest, rfl, ?_, ?_, ?_⟩
        · rwa [List.append_nil]
        · rwa [List.append_nil]
        · rw [firstTaken?, if_pos (looked.mpr used)]
      · have longer : KeysFree s (taken ++ [r]) := keysFree_append_singleton.mpr ⟨free, used⟩
        have known' (key : String) : key ∈ r.key :: earlier ↔ key ∈ (taken ++ [r]).map (·.key) := by
          rw [List.mem_cons, known, List.map_append, List.mem_append, List.map_singleton,
            List.mem_singleton, or_comm]
        rw [List.append_cons] at stuck
        obtain ⟨before, x, later, rfl, freeBefore, usedThere, found⟩ := ih longer stuck known'
        rw [← List.append_cons] at freeBefore usedThere
        refine ⟨r :: before, x, later, rfl, freeBefore, usedThere, ?_⟩
        rw [firstTaken?, if_neg (mt looked.mp used), found]

/-! ### What is due at once

Targets that were just taken are due in the current second, behind those that were due before and in the order
in which they were added. -/

/-- No target under a free key is due. -/
theorem not_mem_keys_of_due (consistent : start.Consistent)
    (free : ∀ r ∈ pending, start.entry? r.key = none) {second : Int} {key : String}
    (due : key ∈ start.buckets.dueBy second) : key ∉ pending.map (·.key) := by
  intro listed
  obtain ⟨r, member, rfl⟩ := List.mem_map.mp listed
  obtain ⟨t, -, waits⟩ := (Scheduler.mem_dueBy consistent second).mp due
  obtain ⟨e, found, -⟩ := (start.waits_iff r.key t).mp waits
  rw [free r member] at found
  cases found

/-- A target put down for the current second has an entry as it was added. -/
theorem Took.entry?_of_current (h : Took settings now start pending s) {r : Registration δ} (member : r ∈ pending)
    (current : r.second? settings now = some now.seconds) :
    s.entry? r.key = some (r.entry settings now.seconds) := by
  obtain ⟨second, known, found⟩ := h.found r member
  rw [current] at known
  rwa [← Option.some.inj known] at found

/-- Targets put down for the current second are handed out behind all others, in the order in which they were
taken. -/
theorem Took.drain_eq (h : Took settings now start pending s) (consistent : start.Consistent)
    (free : ∀ r ∈ pending, start.entry? r.key = none)
    (current : ∀ r ∈ pending, r.second? settings now = some now.seconds) :
    (s.drain now).1 =
      (start.drain now).1 ++ pending.map fun r => Due.ofEntry r.key (r.entry settings now.seconds) := by
  have before : ∀ key ∈ start.buckets.dueBy now.seconds, s.entry? key = start.entry? key :=
    fun key due => h.others key (not_mem_keys_of_due consistent free due)
  have added : ∀ r ∈ pending, s.entry? r.key = some (r.entry settings now.seconds) :=
    fun r member => h.entry?_of_current member (current r member)
  calc (s.drain now).1
    _ = (s.buckets.dueBy now.seconds).filterMap fun key => (s.entry? key).map (Due.ofEntry key) :=
        Scheduler.fst_takeAllDue s.entries _
    _ = (start.buckets.dueBy now.seconds ++ pending.map (·.key)).filterMap
          fun key => (s.entry? key).map (Due.ofEntry key) := by
        rw [h.buckets now.seconds current, consistent.listed.ascending.dueBy_pushAll]
    _ = _ := by
        rw [List.filterMap_append, List.filterMap_map]
        congr 1
        · show _ = (Scheduler.takeAllDue start.entries _).1
          rw [Scheduler.fst_takeAllDue]
          exact List.filterMap_congr fun key due => by rw [before key due, Scheduler.entry?]
        · rw [← List.filterMap_eq_map]
          exact List.filterMap_congr fun r member => by
            rw [Function.comp_apply, added r member, Option.map_some, Function.comp_apply]

/-! ### All targets or none

The two passes put together. -/

/-- A receiver whose scheduler has gone through any operations, with any targets that wait, at any time of the
calendar that has the least intervals of the targets before it.  If a key is taken, the answer names the first
such key and nothing has changed.  Otherwise every target is registered, with bounds of its own where it has some
and else with those of the receiver, and no other entry has changed.  A drain at that time hands out what it would
have handed out before, which none of the targets is among, and then every target once in the order in which they
were added. -/
theorem targets_taken_all_or_none (name : String) (settings : PollSettings) (pending : List (Registration δ))
    (operations : List (Operation δ)) (now : Instant) :
    let s := (Scheduler.empty : Scheduler δ).after operations
    let receiver : Receiver δ := ⟨name, settings, pending, s⟩
    let bounds (r : Registration δ) :=
      Backoff.clampBounds (r.least.getD settings.least) (r.greatest.getD settings.greatest)
    (¬ KeysFree s pending → ∃ earlier r later, pending = earlier ++ r :: later ∧
      KeysFree s earlier ∧ KeyTaken s earlier r.key ∧
      receiver.takeTargets now = (.error (.refused (.duplicateKey r.key)), receiver)) ∧
    (KeysFree s pending → now.inCalendar →
      (∀ r ∈ pending, (now.before (bounds r).1.wholeMillis).inCalendar) →
      ∃ s', receiver.takeTargets now = (.ok (), ⟨name, settings, [], s'⟩) ∧
        (∀ r ∈ pending, s'.entry? r.key =
          some ⟨r.key, (bounds r).1, (bounds r).2, (bounds r).1, 0, r.target, .scheduled now.seconds⟩) ∧
        (∀ key, key ∉ pending.map (·.key) → s'.entry? key = s.entry? key) ∧
        (∀ due ∈ (s.drain now).1, due.key ∉ pending.map (·.key)) ∧
        (s'.drain now).1 =
          (s.drain now).1 ++ pending.map fun r => ⟨r.key, r.target, (bounds r).1, 0⟩) := by
  intro s receiver bounds
  have consistent : s.Consistent := Scheduler.consistent_after operations
  constructor
  · intro stuck
    have none : KeysFree s [] := ⟨by simp, by simp⟩
    have known : ∀ key, key ∈ ([] : List String) ↔ key ∈ ([] : List (Registration δ)).map (·.key) := by simp
    obtain ⟨earlier, r, later, split, free, used, found⟩ := exists_firstTaken none stuck known
    refine ⟨earlier, r, later, split, free, used, ?_⟩
    rw [Receiver.takeTargets, found]
  · rintro ⟨free, apart⟩ known begun
    have current (r : Registration δ) (member : r ∈ pending) : r.second? settings now = some now.seconds :=
      (secondOf_eq_now_iff _ known).mpr (begun r member)
    rcases receiver.registerTargets_of_free free apart now with ⟨s', done, took⟩ | ⟨-, r, member, unknown⟩
    · refine ⟨s', Receiver.takeTargets_of_registerTargets done, ?_, took.others, ?_,
        took.drain_eq consistent free current⟩
      · intro r member
        exact took.entry?_of_current member (current r member)
      · intro due drained
        have waits : due.key ∈ s.buckets.dueBy now.seconds := by
          rw [← Scheduler.map_key_drain consistent]
          exact List.mem_map_of_mem drained
        exact not_mem_keys_of_due consistent free waits
    · rw [current r member] at unknown
      cases unknown

/-- Just before a millisecond of the year 1969 ends, with a target that is due already and with intervals that are
shorter than a second or end between two milliseconds.  Once more with a key that repeats an earlier one and, behind
it, one that is in use: nothing is taken, and the answer names the repeated one. -/
theorem targets_taken_in_1969 :
    let operations : List (Operation Nat) :=
      [.register "old" (.ofSecs 2) (.ofSecs 60) 0, .scheduleNext "old" ⟨-9_000_000_000⟩]
    let s := (Scheduler.empty : Scheduler Nat).after operations
    let now : Instant := ⟨-1_500_000_001⟩
    let pending : List (Registration Nat) :=
      [⟨"b", 1, some ⟨1_500_999_999⟩, none⟩, ⟨"a", 2, some ⟨1⟩, some (.ofSecs 7)⟩,
        ⟨"c", 3, none, none⟩]
    let stuck := pending ++ [⟨"a", 4, none, none⟩, ⟨"old", 5, none, none⟩]
    (KeysFree s pending ∧ now.inCalendar ∧
      ∃ s', (Receiver.mk "pickup" .standard pending s).takeTargets now =
          (.ok (), ⟨"pickup", .standard, [], s'⟩) ∧
        (s'.drain now).1.map Due.key = ["old", "b", "a", "c"]) ∧
    (¬ KeysFree s stuck ∧
      (Receiver.mk "pickup" .standard stuck s).takeTargets now =
        (.error (.refused (.duplicateKey "a")), ⟨"pickup", .standard, stuck, s⟩)) := by
  intro operations s now pending stuck
  have free : KeysFree s pending := by decide +kernel
  have used : ¬ KeysFree s stuck := by decide +kernel
  have known : now.inCalendar := by decide
  obtain ⟨s', done, -, -, -, drained⟩ :=
    (targets_taken_all_or_none "pickup" .standard pending operations now).2 free known (by decide +kernel)
  obtain ⟨earlier, r, later, -, -, -, refused⟩ :=
    (targets_taken_all_or_none "pickup" .standard stuck operations now).1 used
  have first : firstTaken? (Scheduler.empty.after operations) [] stuck = some "a" := by decide +kernel
  have named : r.key = "a" := by
    simp only [Receiver.takeTargets, first, Prod.mk.injEq, Except.error.injEq,
      RegistrationFailure.refused.injEq, Schedule.Error.duplicateKey.injEq] at refused
    exact refused.1.symm
  rw [named] at refused
  refine ⟨⟨free, known, s', done, ?_⟩, used, refused⟩
  rw [drained]
  decide +kernel

end Scheduled

end Intake
