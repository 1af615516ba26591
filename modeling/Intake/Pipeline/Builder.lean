/-
Module: Intake.Pipeline.Builder
Purpose: Puts a sequence together node by node.
Main exports: Pipeline.Builder, Pipeline.Builder.node, Pipeline.Builder.nodesAdded, Pipeline.Builder.build
-/
import Intake.Pipeline.Basic

namespace Intake

namespace Pipeline

/-- The nodes of a sequence that is being put together, in order. -/
structure Builder where
  nodes : List Pipeline

namespace Builder

def new : Builder := ⟨[]⟩

/-- One more node at the end. -/
def node (b : Builder) (added : Pipeline) : Builder := ⟨b.nodes ++ [added]⟩

def step (b : Builder) (s : Step) : Builder := b.node (.step s)

/-- One more step, with a guard of its own. -/
def guardedStep (b : Builder) (s : Step) (strategy : Strategy) : Builder :=
  b.node (.guarded (.step s) strategy)

def branch (b : Builder) (choose : Context → Bool) (yes no : Pipeline) : Builder :=
  b.node (.conditional choose yes no)

/-- Several nodes, added one after the other. -/
def nodesAdded (b : Builder) (added : List Pipeline) : Builder := added.foldl node b

def build (b : Builder) : Pipeline := .sequence b.nodes

@[simp] theorem nodes_nodesAdded (b : Builder) (added : List Pipeline) :
    (b.nodesAdded added).nodes = b.nodes ++ added := by
  induction added generalizing b with
  | nil => exact (List.append_nil b.nodes).symm
  | cons first others ih =>
      rw [nodesAdded, List.foldl_cons, ← nodesAdded, ih, node, List.append_assoc,
        List.singleton_append]

end Builder

end Pipeline

end Intake
