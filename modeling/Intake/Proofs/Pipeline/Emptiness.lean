/-
Module: Intake.Proofs.Pipeline.Emptiness
Purpose: A pipeline counts as empty exactly if no choice of branches makes a step run.
Main exports: Pipeline.isEmpty_iff_leaves, Pipeline.execute_of_isEmpty, Pipeline.exists_answers,
  Pipeline.isEmpty_exact

Emptiness looks at the steps of a tree and at nothing else.  Where there is one, the branches on the way to
the first one can be chosen so that it runs: what stands in front of it is empty, and proceeds.
-/
import Intake.Pipeline.Choosing
import Intake.Proofs.Pipeline.Threading

namespace Intake

namespace Pipeline

/-! ### Trees without steps

A tree is empty if there is no leaf in it, whatever else it is built of. -/

mutual

/-- A tree counts as empty if it has no leaves. -/
theorem isEmpty_iff_leaves : ∀ node : Pipeline, node.isEmpty = true ↔ node.leaves = []
  | .step s => by simp [isEmpty, leaves]
  | .sequence nodes => by
      rw [isEmpty, leaves]
      exact allEmpty_iff_leaves 0 nodes
  | .conditional _ yes no => by
      rw [isEmpty, leaves, Bool.and_eq_true, List.append_eq_nil_iff, List.map_eq_nil_iff,
        List.map_eq_nil_iff, isEmpty_iff_leaves yes, isEmpty_iff_leaves no]
  | .guarded inner _ => by
      rw [isEmpty, leaves, List.map_eq_nil_iff, isEmpty_iff_leaves inner]

/-- Nodes count as empty if none of them has any. -/
theorem allEmpty_iff_leaves : ∀ (child : Nat) (nodes : List Pipeline),
    allEmpty nodes = true ↔ leavesOfAll child nodes = []
  | child, [] => by simp [allEmpty, leavesOfAll]
  | child, node :: rest => by
      rw [allEmpty, leavesOfAll, Bool.and_eq_true, List.append_eq_nil_iff, List.map_eq_nil_iff,
        isEmpty_iff_leaves node, allEmpty_iff_leaves (child + 1) rest]

end

/-- Other choices leave an empty tree empty. -/
theorem isEmpty_choosing (node : Pipeline) (choices : Choices) :
    (node.choosing choices).isEmpty = node.isEmpty := by
  rw [Bool.eq_iff_iff, isEmpty_iff_leaves, isEmpty_iff_leaves, leaves_choosing]

mutual

/-- An empty tree hands its context on and does nothing else. -/
theorem execute_of_isEmpty : ∀ {node : Pipeline}, node.isEmpty = true → ∀ c : Context,
    node.execute c = ⟨.ok (.proceed c), []⟩
  | .step s, empty, c => by
      rw [isEmpty] at empty
      cases empty
  | .sequence nodes, empty, c => by
      rw [isEmpty] at empty
      rw [execute, executeAll_of_allEmpty empty]
  | .conditional choose yes no, empty, c => by
      rw [isEmpty, Bool.and_eq_true] at empty
      rw [execute, execute_of_isEmpty empty.1, execute_of_isEmpty empty.2]
      split
      · rfl
      · rfl
  | .guarded inner strategy, empty, c => by
      rw [isEmpty] at empty
      rw [execute, execute_of_isEmpty empty]
      rfl

/-- So do such nodes. -/
theorem executeAll_of_allEmpty : ∀ {nodes : List Pipeline}, allEmpty nodes = true →
    ∀ {child : Nat} {c : Context}, executeAll child nodes (.proceed c) = ⟨.ok (.proceed c), []⟩
  | [], _, child, c => by rw [executeAll]
  | node :: rest, empty, child, c => by
      rw [allEmpty, Bool.and_eq_true] at empty
      have first : node.execute (Outcome.proceed c).context = ⟨.ok (.proceed c), []⟩ :=
        execute_of_isEmpty empty.1 c
      rw [executeAll_cons (congrArg Run.result first) rfl, first, executeAll_of_allEmpty empty.2]
      rfl

end

/-! ### Trees with steps

For the other direction the branches are chosen on the way down to a leaf, so that this leaf is run. -/

/-- Answers for the places below a child, whichever child it is. -/
def belowAny (answers : Path → Bool) : Path → Bool := fun place => answers place.tail

/-- Answers for a conditional that takes a branch and for the places below that branch. -/
def takingBranch (branch : Bool) (answers : Path → Bool) : Path → Bool
  | [] => branch
  | _ :: place => answers place

theorem executions_below_ne_nil {r : Run} (child : Nat) (runs : executions r.trace ≠ []) :
    executions (r.below child).trace ≠ [] := by
  rw [Run.below, executions_below, ne_eq, List.map_eq_nil_iff]
  exact runs

/-- Whatever follows, the steps of a first node have run. -/
theorem executions_executeAll_ne_nil {child : Nat} {node : Pipeline} (rest : List Pipeline)
    {outcome : Outcome} (runs : executions (node.execute outcome.context).trace ≠ []) :
    executions (executeAll child (node :: rest) outcome).trace ≠ [] := by
  have first := executions_below_ne_nil child runs
  rcases proceeds_or_stops (node.execute outcome.context).result with ⟨next, returned, onwards⟩ | stops
  · rw [executeAll_cons returned onwards, Run.after, executions_append]
    exact List.append_ne_nil_of_left_ne_nil first _
  · rw [executeAll_cons_of_stop stops]
    exact first

mutual

/-- Where there is a step, one answer to each conditional makes some step run, whatever the context. -/
theorem exists_answers : ∀ {node : Pipeline}, node.isEmpty = false → ∃ answers : Path → Bool,
    ∀ c, executions ((node.choosing fun place _ => answers place).execute c).trace ≠ []
  | .step s, _ => ⟨fun _ => false, fun c => List.cons_ne_nil _ _⟩
  | .sequence nodes, filled => by
      rw [isEmpty] at filled
      obtain ⟨answers, runs⟩ := exists_answersAll filled 0
      refine ⟨answers, fun c => ?_⟩
      rw [choosing, execute]
      exact runs c
  | .conditional choose yes no, filled => by
      cases empty : yes.isEmpty with
      | false =>
          obtain ⟨answers, runs⟩ := exists_answers empty
          refine ⟨takingBranch true answers, fun c => ?_⟩
          rw [choosing, execute]
          exact executions_below_ne_nil 0 (runs c)
      | true =>
          rw [isEmpty, empty, Bool.true_and] at filled
          obtain ⟨answers, runs⟩ := exists_answers filled
          refine ⟨takingBranch false answers, fun c => ?_⟩
          rw [choosing, execute]
          exact executions_below_ne_nil 1 (runs c)
  | .guarded inner strategy, filled => by
      rw [isEmpty] at filled
      obtain ⟨answers, runs⟩ := exists_answers filled
      refine ⟨belowAny answers, fun c => ?_⟩
      rw [choosing, execute, executions_guardRun]
      exact executions_below_ne_nil 0 (runs c)

/-- The same for the nodes of a sequence. -/
theorem exists_answersAll : ∀ {nodes : List Pipeline}, allEmpty nodes = false → ∀ child : Nat,
    ∃ answers : Path → Bool, ∀ c,
      executions (executeAll child (choosingAll (fun place _ => answers place) child nodes)
        (.proceed c)).trace ≠ []
  | [], filled, child => by
      rw [allEmpty] at filled
      cases filled
  | node :: rest, filled, child => by
      cases empty : node.isEmpty with
      | false =>
          obtain ⟨answers, runs⟩ := exists_answers empty
          refine ⟨belowAny answers, fun c => ?_⟩
          rw [choosingAll]
          exact executions_executeAll_ne_nil _ (runs c)
      | true =>
          -- The first node proceeds with the context it was given, so that the answers for the others do.
          rw [allEmpty, empty, Bool.true_and] at filled
          obtain ⟨answers, runs⟩ := exists_answersAll filled (child + 1)
          refine ⟨answers, fun c => ?_⟩
          have first (choices : Choices) : (node.choosing choices).execute (Outcome.proceed c).context =
              ⟨.ok (.proceed c), []⟩ :=
            execute_of_isEmpty (by rw [isEmpty_choosing, empty]) c
          rw [choosingAll, executeAll_cons (congrArg Run.result (first _)) rfl, first]
          exact runs c

end

/-- If a tree counts as empty then, however its branches are chosen, it runs no step, offers nothing to a
store, and returns the context as it was, with success and to be followed by whatever comes next.  If it does
not, there is an answer for each of its conditionals with which at least one step runs, on every context. -/
theorem isEmpty_exact (node : Pipeline) :
    if node.isEmpty then
      ∀ c : Context,
        node.execute c = ⟨.ok ⟨c, true, true, none⟩, []⟩ ∧
          ∀ choices, (node.choosing choices).execute c = ⟨.ok ⟨c, true, true, none⟩, []⟩
    else
      ∃ answers : Path → Bool, ∀ c : Context,
        executions ((node.choosing fun place _ => answers place).execute c).trace ≠ [] := by
  split
  · next empty =>
      intro c
      refine ⟨execute_of_isEmpty empty c, fun choices => ?_⟩
      exact execute_of_isEmpty (by rw [isEmpty_choosing, empty]) c
  · next filled =>
      exact exists_answers (Bool.not_eq_true _ ▸ filled)

end Pipeline

end Intake
