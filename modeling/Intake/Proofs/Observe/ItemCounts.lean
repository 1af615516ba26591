/-
Module: Intake.Proofs.Observe.ItemCounts
Purpose: The counters of items, and which events leave them alone.
Main exports: Metrics.ItemCounts, Metrics.itemCounts, Metrics.itemCounts_recordAll_of_neutral
-/
import Intake.Observe.Metrics

namespace Intake

namespace Metrics

/-- How many items came in, are in progress, and have ended in each way. -/
structure ItemCounts where
  received : Nat
  inFlight : Nat
  completed : Nat
  recovered : Nat
  failed : Nat
  delegated : Nat
  deriving Repr, DecidableEq

def itemCounts (m : Metrics) : ItemCounts where
  received := m.itemsReceived
  inFlight := m.itemsInFlight
  completed := m.itemsCompleted
  recovered := m.itemsRecovered
  failed := m.itemsFailed
  delegated := m.itemsDelegated

theorem recordAll_cons (m : Metrics) (now : Nat) (first : Event) (rest : List Event) :
    m.recordAll now (first :: rest) = (m.record now first).recordAll now rest := rfl

theorem recordAll_append (m : Metrics) (now : Nat) (one two : List Event) :
    m.recordAll now (one ++ two) = (m.recordAll now one).recordAll now two :=
  List.foldl_append

/-- The events that happen while an item is processed, and are not about the item as such. -/
def Event.IsNeutral : Event → Prop
  | .exceptionRecorded => True
  | .processed _ => True
  | _ => False

/-- An event that is not about items as such leaves their counts as they are. -/
theorem itemCounts_record_of_neutral {e : Event} (neutral : e.IsNeutral) (m : Metrics) (now : Nat) :
    (m.record now e).itemCounts = m.itemCounts := by
  cases e with
  | exceptionRecorded => rfl
  | processed time => rfl
  | _ => cases neutral

/-- So do any number of them. -/
theorem itemCounts_recordAll_of_neutral {events : List Event} (neutral : ∀ e ∈ events, e.IsNeutral)
    (m : Metrics) (now : Nat) : (m.recordAll now events).itemCounts = m.itemCounts := by
  induction events generalizing m with
  | nil => rfl
  | cons first rest ih =>
      have others : ∀ e ∈ rest, e.IsNeutral := fun e he => neutral e (List.mem_cons_of_mem _ he)
      rw [recordAll_cons, ih others, itemCounts_record_of_neutral (neutral first List.mem_cons_self)]

/-- An item received is one more in progress. -/
theorem itemCounts_received (m : Metrics) (now : Nat) :
    (m.record now .itemReceived).itemCounts =
      { m.itemCounts with received := m.itemsReceived + 1, inFlight := m.itemsInFlight + 1 } := rfl

end Metrics

end Intake
