/-
Module: Intake.Schedule.History
Purpose: What any sequence of operations leads to and answers, with buckets and without.
Main exports: Schedule.Scheduler.after, Schedule.Scheduler.answers, Schedule.Agenda.after,
  Schedule.Agenda.answers, Schedule.Operation.EndsWait, Schedule.IsBooked
-/
import Intake.Schedule.Agenda

namespace Intake

namespace Schedule

variable {δ : Type u}

namespace Scheduler

/-- The state after operations in turn, whatever each of them answers. -/
def after (s : Scheduler δ) (operations : List (Operation δ)) : Scheduler δ :=
  operations.foldl (fun s operation => (s.apply operation).2) s

/-- The answers to operations in turn. -/
def answers (s : Scheduler δ) : List (Operation δ) → List (Answer δ)
  | [] => []
  | operation :: rest => (s.apply operation).1 :: (s.apply operation).2.answers rest

@[simp] theorem after_nil (s : Scheduler δ) : s.after [] = s := rfl

@[simp] theorem after_cons (s : Scheduler δ) (operation : Operation δ)
    (rest : List (Operation δ)) :
    s.after (operation :: rest) = (s.apply operation).2.after rest := rfl

theorem after_append (s : Scheduler δ) (first second : List (Operation δ)) :
    s.after (first ++ second) = (s.after first).after second := by
  rw [after, List.foldl_append]
  rfl

theorem after_concat (s : Scheduler δ) (operations : List (Operation δ)) (last : Operation δ) :
    s.after (operations ++ [last]) = ((s.after operations).apply last).2 :=
  s.after_append operations [last]

end Scheduler

namespace Agenda

/-- The agenda after operations in turn. -/
def after (a : Agenda δ) (operations : List (Operation δ)) : Agenda δ :=
  operations.foldl (fun a operation => (a.apply operation).2) a

/-- The answers to operations in turn. -/
def answers (a : Agenda δ) : List (Operation δ) → List (Answer δ)
  | [] => []
  | operation :: rest => (a.apply operation).1 :: (a.apply operation).2.answers rest

end Agenda

/-- The operations after which a target no longer waits for a second that it has waited for: it is
removed or scheduled anew, or the second has begun by the time of a drain, or everything is cleared. -/
def Operation.EndsWait (key : String) (second : Int) : Operation δ → Prop
  | .unregister other => other = key
  | .scheduleNext other _ => other = key
  | .drain now => second ≤ now.seconds
  | .clear => True
  | _ => False

/-- Operations from the empty scheduler among which one, at its time successful, put a target down for a
second, and none has ended the wait since. -/
def IsBooked (operations : List (Operation δ)) (key : String) (second : Int) : Prop :=
  ∃ earlier start later, operations = earlier ++ .scheduleNext key start :: later ∧
    (((Scheduler.empty : Scheduler δ).after earlier).apply (.scheduleNext key start)).1 =
      .trigger second ∧
    ∀ operation ∈ later, ¬ operation.EndsWait key second

end Schedule

end Intake
