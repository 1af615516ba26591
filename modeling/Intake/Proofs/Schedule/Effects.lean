/-
Module: Intake.Proofs.Schedule.Effects
Purpose: All that one operation can do to one target of a scheduler.
Main exports: Schedule.Effect, Schedule.effect_apply, Schedule.apply_settle

There is one way for each operation on the target itself, two for those that reach several targets, and
one for everything that is no concern of the target.  What holds of all targets of a scheduler is proved
by cases on these ways.
-/
import Intake.Proofs.Schedule.Draining
import Intake.Schedule.Occurrence

namespace Intake

namespace Schedule

variable {δ : Type u} {s : Scheduler δ} {key : String} {e : Entry δ}

/-- Nothing happens to a target. -/
def Occurrence.IsQuiet (key : String) (o : Occurrence δ) : Prop :=
  o.registers key = false ∧ o.schedules key = false ∧ o.handsOut key = false ∧
    o.settles key = false ∧ o.resets key = false ∧ o.grows key = false

/-- What an occurrence makes of the entry of a target. -/
inductive Effect (key : String) :
    Occurrence δ → Option (Entry δ) → Option (Entry δ) → Prop where
  | registered (least greatest : Duration) (descriptor : δ) :
      Effect key ⟨.register key least greatest descriptor, .done⟩ none
        (some (.create key least greatest descriptor))
  | unregistered (e : Entry δ) : Effect key ⟨.unregister key, .done⟩ (some e) none
  | cleared (before : Option (Entry δ)) : Effect key ⟨.clear, .done⟩ before none
  | scheduled (e : Entry δ) (start : Instant) :
      Effect key ⟨.scheduleNext key start, .trigger (triggerSecond start e.current)⟩ (some e)
        (some { e with phase := .scheduled (triggerSecond start e.current) })
  | handedOut (e : Entry δ) (now : Instant) (due : List (Due δ)) (member : key ∈ due.map Due.key) :
      Effect key ⟨.drain now, .drained due⟩ (some e) (some { e with phase := .due })
  | grown (e : Entry δ) : Effect key ⟨.grow key, .interval e.grow.current⟩ (some e) (some e.grow)
  | reset (e : Entry δ) : Effect key ⟨.reset key, .done⟩ (some e) (some e.reset)
  | settled (e : Entry δ) (productive : Bool) (due : e.phase = .due) :
      Effect key ⟨.settle key productive, .settled true⟩ (some e) (some (e.settled productive))
  | quiet (o : Occurrence δ) (before : Option (Entry δ)) (quiet : o.IsQuiet key) :
      Effect key o before before

/-- The target that an operation names. -/
def Operation.target? : Operation δ → Option String
  | .register key _ _ _ => some key
  | .unregister key => some key
  | .scheduleNext key _ => some key
  | .drain _ => none
  | .grow key => some key
  | .reset key => some key
  | .settle key _ => some key
  | .clear => none

/-! ### Occurrences without an effect

A refused operation, one on another target and settling a target that is not due all leave the entry of a
target alone. -/

/-- A refused operation does nothing to any target. -/
theorem isQuiet_refused (key : String) (operation : Operation δ) (cause : Error) :
    Occurrence.IsQuiet key ⟨operation, .refused cause⟩ := by
  cases operation with
  | settle other productive =>
      cases productive with
      | true => exact ⟨rfl, rfl, rfl, rfl, rfl, rfl⟩
      | false => exact ⟨rfl, rfl, rfl, rfl, rfl, rfl⟩
  | _ => exact ⟨rfl, rfl, rfl, rfl, rfl, rfl⟩

/-- Settling a target that is not due does nothing. -/
theorem isQuiet_unsettled (key other : String) (productive : Bool) :
    Occurrence.IsQuiet (δ := δ) key ⟨.settle other productive, .settled false⟩ := by
  cases productive with
  | true => exact ⟨rfl, rfl, rfl, rfl, rfl, rfl⟩
  | false => exact ⟨rfl, rfl, rfl, rfl, rfl, rfl⟩

/-- Neither does an operation on another target. -/
theorem isQuiet_of_other {operation : Operation δ} {other : String}
    (target : operation.target? = some other) (differs : key ≠ other) (answer : Answer δ) :
    Occurrence.IsQuiet key ⟨operation, answer⟩ := by
  have unlike : (other == key) = false := beq_false_of_ne (Ne.symm differs)
  cases operation with
  | drain now => cases target
  | clear => cases target
  | settle named productive =>
      cases target
      cases productive <;> rcases answer with _ | _ | _ | _ | _ | (_ | _) <;>
        simp [Occurrence.IsQuiet, unlike]
  | _ =>
      cases target
      cases answer <;> simp [Occurrence.IsQuiet, unlike]

/-! ### Effects of operations

All that an operation can do to one target is said by the cases of `Effect`, from which the later proofs go
on. -/

/-- An operation on a target by its name has an effect on this target, and on no other. -/
theorem effect_of_target {operation : Operation δ} {answer : Answer δ} {other : String}
    {changed : Scheduler δ} (target : operation.target? = some other)
    (own : Effect other ⟨operation, answer⟩ (s.entry? other) (changed.entry? other))
    (apart : ∀ k, k ≠ other → changed.entry? k = s.entry? k) :
    Effect key ⟨operation, answer⟩ (s.entry? key) (changed.entry? key) := by
  by_cases same : key = other
  · subst same
    exact own
  · rw [apart key same]
    exact .quiet _ _ (isQuiet_of_other target same answer)

/-- A drain hands out the targets that it returns, and does nothing to the others. -/
theorem effect_drain (h : s.Consistent) (key : String) (now : Instant) :
    Effect key ⟨.drain now, .drained (s.drain now).1⟩ (s.entry? key)
      (Scheduler.entry? (s.drain now).2 key) := by
  have listed := Scheduler.map_key_drain h now
  rw [Scheduler.entry?_drain, ← listed]
  by_cases member : key ∈ (s.drain now).1.map Due.key
  · have waits := (Scheduler.mem_dueBy h now.seconds).mp (listed ▸ member)
    obtain ⟨second, -, waiting⟩ := waits
    obtain ⟨e, found, -⟩ := (s.waits_iff key second).mp waiting
    rw [if_pos member, found, Option.map_some]
    exact .handedOut e now _ member
  · rw [if_neg member]
    refine .quiet _ _ ⟨rfl, rfl, ?_, rfl, rfl, rfl⟩
    simpa [Occurrence.handsOut] using member

/-- Every operation has one of these effects on every target. -/
theorem effect_apply (h : s.Consistent) (key : String) (operation : Operation δ) :
    Effect key ⟨operation, (s.apply operation).1⟩ (s.entry? key)
      (Scheduler.entry? (s.apply operation).2 key) := by
  cases operation with
  | register other least greatest descriptor =>
      simp only [Scheduler.apply, Scheduler.register]
      cases known : s.entries.contains other with
      | true => exact .quiet _ _ (isQuiet_refused key _ _)
      | false =>
          have missing : s.entry? other = none := by
            simpa [Table.contains, Scheduler.entry?] using known
          refine effect_of_target rfl ?_ fun k differs => by simp [differs, Scheduler.entry?]
          rw [missing]
          simpa using Effect.registered least greatest descriptor
  | unregister other =>
      simp only [Scheduler.apply, Scheduler.unregister]
      cases found : s.entry? other with
      | none => exact .quiet _ _ (isQuiet_refused key _ _)
      | some e =>
          refine effect_of_target rfl ?_ fun k differs => by simp [differs, Scheduler.entry?]
          rw [found]
          simpa using Effect.unregistered e
  | scheduleNext other start =>
      simp only [Scheduler.apply, Scheduler.scheduleNext]
      cases found : s.entry? other with
      | none => exact .quiet _ _ (isQuiet_refused key _ _)
      | some e =>
          refine effect_of_target rfl ?_ fun k differs => by simp [differs, Scheduler.entry?]
          rw [found]
          simpa using Effect.scheduled e start
  | drain now => exact effect_drain h key now
  | grow other =>
      simp only [Scheduler.apply, Scheduler.grow]
      cases found : s.entry? other with
      | none => exact .quiet _ _ (isQuiet_refused key _ _)
      | some e =>
          refine effect_of_target rfl ?_ fun k differs => by simp [differs, Scheduler.entry?]
          rw [found]
          simpa using Effect.grown e
  | reset other =>
      simp only [Scheduler.apply, Scheduler.reset]
      cases found : s.entry? other with
      | none => exact .quiet _ _ (isQuiet_refused key _ _)
      | some e =>
          refine effect_of_target rfl ?_ fun k differs => by simp [differs, Scheduler.entry?]
          rw [found]
          simpa using Effect.reset e
  | settle other productive =>
      simp only [Scheduler.apply, Scheduler.settle]
      cases found : s.entry? other with
      | none => exact .quiet _ _ (isQuiet_refused key _ _)
      | some e =>
          by_cases due : e.phase = .due
          · simp only [if_pos due]
            refine effect_of_target rfl ?_ fun k differs => by simp [differs, Scheduler.entry?]
            rw [found, Scheduler.entry?_put, if_pos rfl]
            exact .settled e productive due
          · simp only [if_neg due]
            exact .quiet _ _ (isQuiet_unsettled key other productive)
  | clear => exact .cleared _

/-- Settling changes a target that is due, and no other. -/
theorem apply_settle (found : s.entry? key = some e) (productive : Bool) :
    s.apply (.settle key productive) =
      if e.phase = .due then
        (.settled true, { s with entries := s.entries.put key (e.settled productive) })
      else (.settled false, s) := by
  simp only [Scheduler.apply, Scheduler.settle, found]
  by_cases due : e.phase = .due
  · rw [if_pos due, if_pos due]
    rfl
  · rw [if_neg due, if_neg due]

end Schedule

end Intake
