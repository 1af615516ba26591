/-
Module: Intake.Pipeline.Choosing
Purpose: Pipelines of the same steps and guards that choose their branches in another way.
Main exports: Pipeline.Choices, Pipeline.choosing, Pipeline.leaves_choosing
-/
import Intake.Pipeline.Basic

namespace Intake

namespace Pipeline

/-- An answer for every conditional, by its place, and for every context that it may be asked about. -/
abbrev Choices := Path → Context → Bool

/-- The choices that concern the places below a child, as the child sees them. -/
def Choices.under (choices : Choices) (child : Nat) : Choices := fun place => choices (child :: place)

mutual

/-- The pipeline in which each conditional takes the branch that `choices` say. -/
def choosing (choices : Choices) : Pipeline → Pipeline
  | .step s => .step s
  | .sequence nodes => .sequence (choosingAll choices 0 nodes)
  | .conditional _ yes no =>
    .conditional (choices []) (yes.choosing (choices.under 0)) (no.choosing (choices.under 1))
  | .guarded inner strategy => .guarded (inner.choosing (choices.under 0)) strategy

def choosingAll (choices : Choices) (child : Nat) : List Pipeline → List Pipeline
  | [] => []
  | node :: rest => node.choosing (choices.under child) :: choosingAll choices (child + 1) rest

end

mutual

/-- The steps stay what they are and where they are. -/
theorem leaves_choosing : ∀ (node : Pipeline) (choices : Choices),
    (node.choosing choices).leaves = node.leaves
  | .step s, choices => by rw [choosing]
  | .sequence nodes, choices => by
      rw [choosing, leaves, leaves, leavesOfAll_choosingAll]
  | .conditional choose yes no, choices => by
      rw [choosing, leaves, leaves, leaves_choosing yes, leaves_choosing no]
  | .guarded inner strategy, choices => by
      rw [choosing, leaves, leaves, leaves_choosing inner]

theorem leavesOfAll_choosingAll : ∀ (nodes : List Pipeline) (choices : Choices) (child : Nat),
    leavesOfAll child (choosingAll choices child nodes) = leavesOfAll child nodes
  | [], choices, child => by rw [choosingAll]
  | node :: rest, choices, child => by
      rw [choosingAll, leavesOfAll, leavesOfAll, leaves_choosing node, leavesOfAll_choosingAll rest]

end

end Pipeline

end Intake
