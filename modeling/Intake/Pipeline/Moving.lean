/-
Module: Intake.Pipeline.Moving
Purpose: Pipelines that do the same at different places of their trees.
Main exports: Pipeline.ActsLike, Pipeline.Event.moved, Pipeline.Run.moved, Pipeline.liftedPlace,
  Pipeline.flatPlace

A trace names the place of each step and of each guard.  Where nodes are put together in another way the
places change, and what happens need not.
-/
import Intake.Pipeline.Basic

namespace Intake

namespace Pipeline

/-- On every context the same steps run on the same contexts in the same order, the same records are
offered to the same strategies between them, and the same is returned. -/
def ActsLike (one two : Pipeline) : Prop :=
  ∀ c, (one.execute c).result = (two.execute c).result ∧
    (one.execute c).trace.map Event.action = (two.execute c).trace.map Event.action

def Event.moved (move : Path → Path) (e : Event) : Event := { e with path := move e.path }

/-- The run of a pipeline of which every node has moved. -/
def Run.moved (move : Path → Path) (r : Run) : Run := { r with trace := r.trace.map (.moved move) }

/-- The place in a sequence of what a sequence in it holds at a place, `before` nodes standing in front. -/
def liftedPlace (before : Nat) : Path → Path
  | [] => [before]
  | i :: rest => (before + i) :: rest

/-- Where a place below a sequence goes when the sequence in it that `before` nodes stand in front of gives
way to its own `inner` nodes. -/
def flatPlace (before inner : Nat) : Path → Path
  | [] => []
  | i :: rest =>
    if i < before then i :: rest
    else if i = before then liftedPlace before rest
    else (i - 1 + inner) :: rest

theorem Run.moved_result (move : Path → Path) (r : Run) : (r.moved move).result = r.result := rfl

theorem Run.map_action_moved (move : Path → Path) (r : Run) :
    (r.moved move).trace.map Event.action = r.trace.map Event.action := by
  rw [moved, List.map_map]
  rfl

theorem Run.moved_after (move : Path → Path) (r : Run) (earlier : List Event) :
    (r.after earlier).moved move = (r.moved move).after (earlier.map (.moved move)) := by
  rw [moved, after, List.map_append]
  rfl

/-- The run of a child moves as its places move below the parent. -/
theorem Run.moved_below (move : Path → Path) (r : Run) (child : Nat) :
    (r.below child).moved move = r.moved fun path => move (child :: path) := by
  rw [moved, below, List.map_map]
  rfl

/-! ### Three kinds of places: in front of the inner sequence, below it, and behind it -/

theorem flatPlace_before {before i : Nat} (inner : Nat) (h : i < before) (rest : Path) :
    flatPlace before inner ((0 + i) :: rest) = (0 + i) :: rest := by
  rw [Nat.zero_add, flatPlace, if_pos h]

theorem flatPlace_inside (before inner i : Nat) (rest : Path) :
    flatPlace before inner (before :: (0 + i) :: rest) = (before + i) :: rest := by
  rw [Nat.zero_add, flatPlace, if_neg (Nat.lt_irrefl before), if_pos rfl, liftedPlace]

theorem flatPlace_behind (before inner i : Nat) (rest : Path) :
    flatPlace before inner ((before + 1 + i) :: rest) = (before + inner + i) :: rest := by
  rw [flatPlace, if_neg (by omega), if_neg (by omega)]
  congr 1
  omega

end Pipeline

end Intake
