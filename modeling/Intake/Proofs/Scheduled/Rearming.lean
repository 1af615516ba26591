/-
Module: Intake.Proofs.Scheduled.Rearming
Purpose: Settling and scheduling again changes the entries of the targets that were due, and no other.
Main exports: Scheduled.rearmOperations, Scheduled.settleAll_eq_after, Scheduled.entry?_rearm,
  Scheduled.entry?_settleAll
-/
import Intake.Proofs.Schedule.Effects
import Intake.Scheduled.Polls

namespace Intake

namespace Scheduled

open Schedule

variable {δ : Type u} {s : Scheduler δ} {key : String} {e : Entry δ}
  {results : List (String × Bool)}

/-! ### Settling as operations

After a round each target is settled and put down for a second.  This is done by operations of the scheduler,
so what holds after all operations holds after a round. -/

/-- The operations by which the outcomes of a round are applied. -/
def rearmOperations (now : Instant) (results : List (String × Bool)) : List (Operation δ) :=
  results.flatMap fun (key, productive) => [.settle key productive, .scheduleNext key now]

/-- Settling a round is nothing but operations of the scheduler; a target that is gone refuses both. -/
theorem settleAll_eq_after (now : Instant) (s : Scheduler δ) (results : List (String × Bool)) :
    settleAll now s results = s.after (rearmOperations now results) := by
  induction results generalizing s with
  | nil => rfl
  | cons result rest ih =>
      obtain ⟨key, productive⟩ := result
      rw [settleAll, ih]
      show _ = (s.after [.settle key productive, .scheduleNext key now]).after (rearmOperations now rest)
      congr 1
      show _ = ((s.apply (.settle key productive)).2.apply (.scheduleNext key now)).2
      simp only [Scheduler.apply]
      cases settled : s.settle key productive with
      | error cause =>
          -- Only a target that is gone is refused, and scheduling refuses it too.
          have gone : s.entry? key = none := by
            rw [Scheduler.settle] at settled
            split at settled
            · assumption
            · split at settled
              · cases settled
              · cases settled
          simp only [Scheduler.scheduleNext, gone]
      | ok changed =>
          obtain ⟨_, t⟩ := changed
          cases scheduled : t.scheduleNext key now with
          | error cause => simp only [scheduled]
          | ok x => simp only [scheduled]

/-! ### One target

A target that was drained is due, and its growth is that of the entry before the drain. -/

/-- How an entry was waiting has no effect on its growth. -/
theorem grow_markDue (e : Entry δ) : (Scheduler.markDue e).grow = Scheduler.markDue e.grow := by
  have adjusted (step : Duration × Nat) :
      (Scheduler.markDue e).adjust step = Scheduler.markDue (e.adjust step) := rfl
  exact adjusted (Backoff.next e.least e.greatest e.attempts)

/-- So how it was waiting has no effect on how it is rearmed. -/
theorem rearmed_markDue (now : Instant) (productive : Bool) (e : Entry δ) :
    rearmed now productive (Scheduler.markDue e) = rearmed now productive e := by
  have idle (f : Entry δ) :
      ({ Scheduler.markDue f with phase := .idle } : Entry δ) = { f with phase := .idle } := rfl
  have same : (Scheduler.markDue e).settled productive = e.settled productive := by
    cases productive with
    | true => rfl
    | false =>
        rw [Entry.settled, Entry.settled, if_neg Bool.false_ne_true, if_neg Bool.false_ne_true,
          grow_markDue, idle]
  rw [rearmed, same, rearmed]

/-- A target that is due is settled and scheduled; the others stay as they are. -/
theorem entry?_rearm (now : Instant) (found : s.entry? key = some e) (due : e.phase = .due)
    (productive : Bool) (k : String) :
    Scheduler.entry? (s.after [.settle key productive, .scheduleNext key now]) k =
      if k = key then some (rearmed now productive e) else s.entry? k := by
  have settled (k : String) : Scheduler.entry? (s.apply (.settle key productive)).2 k =
      if k = key then some (e.settled productive) else s.entry? k := by
    rw [apply_settle found, if_pos due]
    exact Scheduler.entry?_put ..
  have own := settled key
  rw [if_pos rfl] at own
  show Scheduler.entry? ((s.apply (.settle key productive)).2.apply (.scheduleNext key now)).2 k = _
  generalize (s.apply (.settle key productive)).2 = t at settled own ⊢
  simp only [Scheduler.apply, Scheduler.scheduleNext, own]
  rw [Scheduler.entry?_put]
  split
  · rfl
  · next other =>
      have before := settled k
      rwa [if_neg other] at before

/-! ### All targets of a round

The targets of a round have different keys, so settling one leaves the entries of the others alone. -/

/-- Each target of the results is settled and scheduled once; all others stay as they are. -/
theorem entry?_settleAll (now : Instant) (distinct : (results.map Prod.fst).Nodup)
    (due : ∀ x ∈ results, ∃ e, s.entry? x.1 = some e ∧ e.phase = .due) :
    (∀ x ∈ results, ∀ e, s.entry? x.1 = some e →
      Scheduler.entry? (settleAll now s results) x.1 = some (rearmed now x.2 e)) ∧
    ∀ key ∉ results.map Prod.fst, Scheduler.entry? (settleAll now s results) key = s.entry? key := by
  induction results generalizing s with
  | nil =>
      refine ⟨?_, fun _ _ => rfl⟩
      intro x member
      cases member
  | cons result rest ih =>
      obtain ⟨key, productive⟩ := result
      obtain ⟨fresh, distinct⟩ := List.nodup_cons.mp distinct
      obtain ⟨⟨e, found, isDue⟩, later⟩ := List.forall_mem_cons.mp due
      have first (k : String) := entry?_rearm now found isDue productive k
      have apart (x : String × Bool) (member : x ∈ rest) : x.1 ≠ key := by
        rintro rfl
        exact fresh (List.mem_map.mpr ⟨x, member, rfl⟩)
      have split : settleAll now s ((key, productive) :: rest) =
          settleAll now (s.after [.settle key productive, .scheduleNext key now]) rest := by
        rw [settleAll_eq_after, settleAll_eq_after]
        rfl
      rw [split]
      generalize s.after [.settle key productive, .scheduleNext key now] = t at first ⊢
      have unchanged (x : String × Bool) (member : x ∈ rest) : t.entry? x.1 = s.entry? x.1 := by
        rw [first, if_neg (apart x member)]
      obtain ⟨settled, others⟩ := ih distinct fun x member => by
        rw [unchanged x member]
        exact later x member
      refine ⟨?_, ?_⟩
      · intro x member f there
        rcases List.mem_cons.mp member with rfl | member
        · rw [others key fresh, first, if_pos rfl]
          rw [found] at there
          cases there
          rfl
        · refine settled x member f ?_
          rw [unchanged x member]
          exact there
      · intro k absent
        obtain ⟨differs, absent⟩ := not_or.mp (mt List.mem_cons.mpr absent)
        rw [others k absent, first, if_neg differs]

end Scheduled

end Intake
