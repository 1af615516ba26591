/-
Module: Intake.Schedule.Occurrence
Purpose: What has happened to one target of a scheduler, read off the operations and their answers.
Main exports: Schedule.Occurrence, Schedule.Scheduler.occurrences, Schedule.growthsOf, Schedule.isOut,
  Schedule.registrationOf?, Schedule.Operation.KeepsBackoff, Schedule.Operation.InRange,
  Schedule.Scheduler.grownBy

An operation counts for a target only if it was not refused, and settling only if it changed something.
Lists of occurrences begin with the earliest one.
-/
import Intake.Schedule.History

namespace Intake

namespace Schedule

variable {δ : Type u}

/-- An operation that was carried out, with its answer. -/
structure Occurrence (δ : Type u) where
  operation : Operation δ
  answer : Answer δ

namespace Occurrence

/-- The target is new. -/
@[simp] def registers (key : String) : Occurrence δ → Bool
  | ⟨.register other _ _ _, .done⟩ => other == key
  | _ => false

/-- The target gets a second to wait for. -/
@[simp] def schedules (key : String) : Occurrence δ → Bool
  | ⟨.scheduleNext other _, .trigger _⟩ => other == key
  | _ => false

/-- The target is one of those that a drain returned. -/
@[simp] def handsOut (key : String) : Occurrence δ → Bool
  | ⟨.drain _, .drained due⟩ => (due.map Due.key).contains key
  | _ => false

/-- The outcome of a fire is applied to the target. -/
@[simp] def settles (key : String) : Occurrence δ → Bool
  | ⟨.settle other _, .settled true⟩ => other == key
  | _ => false

/-- The target goes back to its least interval. -/
@[simp] def resets (key : String) : Occurrence δ → Bool
  | ⟨.reset other, .done⟩ => other == key
  | ⟨.settle other true, .settled true⟩ => other == key
  | _ => false

/-- The target takes one backoff step. -/
@[simp] def grows (key : String) : Occurrence δ → Bool
  | ⟨.grow other, .interval _⟩ => other == key
  | ⟨.settle other false, .settled true⟩ => other == key
  | _ => false

/-- What decides whether the target is handed out and not settled. -/
def moves (key : String) (o : Occurrence δ) : Bool :=
  o.registers key || o.schedules key || o.handsOut key || o.settles key

/-- Where the count of backoff steps begins. -/
def startsOver (key : String) (o : Occurrence δ) : Bool := o.registers key || o.resets key

end Occurrence

/-- What happens in a run of operations. -/
def Scheduler.occurrences (s : Scheduler δ) : List (Operation δ) → List (Occurrence δ)
  | [] => []
  | operation :: rest =>
    ⟨operation, (s.apply operation).1⟩ :: (s.apply operation).2.occurrences rest

/-- The backoff steps of a target since it was registered or last reset. -/
def growthsOf (key : String) (past : List (Occurrence δ)) : Nat :=
  (past.reverse.takeWhile fun o => !o.startsOver key).countP (·.grows key)

/-- Whether the last that happened to a target, of all that moves it, is that a drain returned it. -/
def isOut (key : String) (past : List (Occurrence δ)) : Bool :=
  (past.reverse.find? (·.moves key)).any (·.handsOut key)

/-- The last registration of a target. -/
def registrationOf? (key : String) (past : List (Occurrence δ)) : Option (Operation δ) :=
  (past.reverse.find? (·.registers key)).map Occurrence.operation

/-- The operations that are no concern of the backoff of a target: schedulings and drains, and all that is
done to another target. -/
def Operation.KeepsBackoff (key : String) : Operation δ → Prop
  | .register other _ _ _ => other ≠ key
  | .unregister other => other ≠ key
  | .scheduleNext _ _ => True
  | .drain _ => True
  | .grow other => other ≠ key
  | .reset other => other ≠ key
  | .settle other _ => other ≠ key
  | .clear => False

/-- The operations that register spans of time only, as far as numbers of 64 binary digits go. -/
def Operation.InRange : Operation δ → Prop
  | .register _ least greatest _ => least.InRange ∧ greatest.InRange
  | _ => True

/-- The state after growth steps of one target in a row. -/
def Scheduler.grownBy (s : Scheduler δ) (key : String) (steps : Nat) : Scheduler δ :=
  s.after (List.replicate steps (.grow key))

/-! ### One more occurrence

What is said about the past of a target changes with one more occurrence in a simple way, which carries the
inductions over all operations. -/

theorem growthsOf_concat (key : String) (past : List (Occurrence δ)) (o : Occurrence δ) :
    growthsOf key (past ++ [o]) =
      if o.startsOver key then 0 else growthsOf key past + if o.grows key then 1 else 0 := by
  rw [growthsOf, List.reverse_concat, List.takeWhile_cons]
  cases o.startsOver key with
  | true => rfl
  | false => exact List.countP_cons

theorem isOut_concat (key : String) (past : List (Occurrence δ)) (o : Occurrence δ) :
    isOut key (past ++ [o]) = if o.moves key then o.handsOut key else isOut key past := by
  rw [isOut, List.reverse_concat, List.find?_cons]
  cases o.moves key with
  | true => rfl
  | false => rfl

theorem registrationOf?_concat (key : String) (past : List (Occurrence δ)) (o : Occurrence δ) :
    registrationOf? key (past ++ [o]) =
      if o.registers key then some o.operation else registrationOf? key past := by
  rw [registrationOf?, List.reverse_concat, List.find?_cons]
  cases o.registers key with
  | true => rfl
  | false => rfl

namespace Scheduler

theorem occurrences_append (s : Scheduler δ) (first second : List (Operation δ)) :
    s.occurrences (first ++ second) = s.occurrences first ++ (s.after first).occurrences second := by
  induction first generalizing s with
  | nil => rfl
  | cons operation rest ih =>
      rw [List.cons_append, occurrences, occurrences, after_cons, ih, List.cons_append]

theorem occurrences_concat (s : Scheduler δ) (operations : List (Operation δ))
    (last : Operation δ) :
    s.occurrences (operations ++ [last]) =
      s.occurrences operations ++ [⟨last, ((s.after operations).apply last).1⟩] :=
  s.occurrences_append operations [last]

theorem map_operation_occurrences (s : Scheduler δ) (operations : List (Operation δ)) :
    (s.occurrences operations).map Occurrence.operation = operations := by
  induction operations generalizing s with
  | nil => rfl
  | cons operation rest ih => rw [occurrences, List.map_cons, ih]

end Scheduler

/-- A registration that has happened is one of the operations. -/
theorem mem_of_registrationOf? {key : String} {s : Scheduler δ} {operations : List (Operation δ)}
    {operation : Operation δ}
    (h : registrationOf? key (s.occurrences operations) = some operation) :
    operation ∈ operations := by
  obtain ⟨o, found, rfl⟩ := Option.map_eq_some_iff.mp h
  have member : o ∈ s.occurrences operations := List.mem_reverse.mp (List.mem_of_find?_eq_some found)
  rw [← s.map_operation_occurrences operations]
  exact List.mem_map_of_mem member

end Schedule

end Intake
