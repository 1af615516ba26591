/-
Module: Intake.Proofs.Pipeline.Laws
Purpose: What every step of a pipeline keeps to, the pipeline keeps to.
Main exports: Pipeline.madeOf_sequence, Pipeline.madeOf_conditional, Pipeline.madeOf_guarded,
  Step.Obeys, Pipeline.Chains, Pipeline.execute_obeys

A law relates the context that is given to an outcome.  If it holds of proceeding with the context unchanged
and goes on from one outcome to the next, then it is enough to look at the steps one by one.
-/
import Intake.Pipeline.Stock
import Intake.Proofs.Pipeline.Ending

namespace Intake

/-- The step raises no fault, and keeps to the law. -/
def Step.Obeys (law : Context → Outcome → Prop) (s : Step) : Prop :=
  ∀ c, ∃ outcome, s.run c = .ok outcome ∧ law c outcome

namespace Pipeline

variable {kind : Step → Prop} {law : Context → Outcome → Prop}

/-! ### The steps of a tree, node by node

That all steps of a tree are of a kind is said of its nodes one by one. -/

@[simp] theorem madeOf_step {s : Step} : (Pipeline.step s).MadeOf kind ↔ kind s := by
  simp [MadeOf, leaves]

@[simp] theorem madeOf_sequence {nodes : List Pipeline} :
    (Pipeline.sequence nodes).MadeOf kind ↔ ∀ node ∈ nodes, node.MadeOf kind := by
  have all (child : Nat) : (∀ leaf ∈ leavesOfAll child nodes, kind leaf.2) ↔
      ∀ node ∈ nodes, node.MadeOf kind := by
    induction nodes generalizing child with
    | nil => simp [leavesOfAll]
    | cons node rest ih =>
        rw [leavesOfAll, List.forall_mem_append, List.forall_mem_map, ih, List.forall_mem_cons]
        rfl
  rw [MadeOf, leaves]
  exact all 0

@[simp] theorem madeOf_conditional {choose : Context → Bool} {yes no : Pipeline} :
    (Pipeline.conditional choose yes no).MadeOf kind ↔ yes.MadeOf kind ∧ no.MadeOf kind := by
  rw [MadeOf, leaves, List.forall_mem_append, List.forall_mem_map, List.forall_mem_map]
  rfl

@[simp] theorem madeOf_guarded {inner : Pipeline} {strategy : Strategy} :
    (Pipeline.guarded inner strategy).MadeOf kind ↔ inner.MadeOf kind := by
  rw [MadeOf, leaves, List.forall_mem_map]
  rfl

/-- Steps of one kind are of every wider one. -/
theorem MadeOf.mono {other : Step → Prop} {node : Pipeline} (made : node.MadeOf kind)
    (h : ∀ s, kind s → other s) : node.MadeOf other :=
  fun leaf member => h leaf.2 (made leaf member)

/-! ### From steps to trees

A law of single steps becomes one of trees if it holds of doing nothing and of one outcome behind another. -/

/-- The law holds of proceeding at once, and along every chain of outcomes that let something follow. -/
structure Chains (law : Context → Outcome → Prop) : Prop where
  proceed : ∀ c, law c (.proceed c)
  onwards : ∀ {c : Context} {outcome next : Outcome}, law c outcome → outcome.canProceed = true →
    law outcome.context next → law c next

/-- The run ends without a fault and as the law says, and nothing was offered to a store. -/
def Run.Obeys (law : Context → Outcome → Prop) (c : Context) (r : Run) : Prop :=
  ∃ outcome, r.result = .ok outcome ∧ law c outcome ∧ offers r.trace = []

/-- A run keeps to the law at every place. -/
theorem Run.Obeys.below {c : Context} {r : Run} (h : r.Obeys law c) (child : Nat) :
    (r.below child).Obeys law c := by
  obtain ⟨outcome, result, lawful, quiet⟩ := h
  refine ⟨outcome, result, lawful, ?_⟩
  rw [Run.below, offers_below, quiet, List.map_nil]

mutual

/-- A tree of steps that keep to a law keeps to it, whatever its shape, its choices and its guards. -/
theorem execute_obeys (chains : Chains law) : ∀ {node : Pipeline}, node.MadeOf (Step.Obeys law) →
    ∀ c, (node.execute c).Obeys law c
  | .step s, made, c => by
      obtain ⟨outcome, result, lawful⟩ := madeOf_step.mp made c
      rw [execute]
      exact ⟨outcome, result, lawful, rfl⟩
  | .sequence nodes, made, c => by
      rw [execute]
      exact executeAll_obeys chains (madeOf_sequence.mp made) 0 (chains.proceed c) rfl
  | .conditional choose yes no, made, c => by
      obtain ⟨left, right⟩ := madeOf_conditional.mp made
      rw [execute]
      split
      · exact (execute_obeys chains left c).below 0
      · exact (execute_obeys chains right c).below 1
  | .guarded inner strategy, made, c => by
      have inside := (execute_obeys chains (madeOf_guarded.mp made) c).below 0
      obtain ⟨outcome, result, lawful, quiet⟩ := inside
      -- A guard has nothing to do without a fault.
      rw [execute, guardRun, result]
      exact ⟨outcome, result, lawful, quiet⟩

/-- So do the nodes of a sequence, behind an outcome that keeps to it. -/
theorem executeAll_obeys (chains : Chains law) : ∀ {nodes : List Pipeline},
    (∀ node ∈ nodes, node.MadeOf (Step.Obeys law)) → ∀ (child : Nat) {c : Context} {outcome : Outcome},
      law c outcome → outcome.canProceed = true → (executeAll child nodes outcome).Obeys law c
  | [], _, child, c, outcome, lawful, _ => by
      rw [executeAll]
      exact ⟨outcome, rfl, lawful, rfl⟩
  | node :: rest, made, child, c, outcome, lawful, proceeds => by
      obtain ⟨first, others⟩ := List.forall_mem_cons.mp made
      obtain ⟨next, returned, lawfully, quiet⟩ := (execute_obeys chains first outcome.context).below child
      have soFar : law c next := chains.onwards lawful proceeds lawfully
      cases goes : next.canProceed with
      | true =>
          obtain ⟨last, result, whole, still⟩ := executeAll_obeys chains others (child + 1) soFar goes
          rw [executeAll_cons returned goes]
          refine ⟨last, result, whole, ?_⟩
          rw [Run.after, offers_append, quiet, still, List.nil_append]
      | false =>
          have ended : (node.execute outcome.context).result = .ok next := returned
          have stops : ∀ o, (node.execute outcome.context).result = .ok o → o.canProceed = false := by
            intro o same
            obtain rfl := Except.ok.inj (ended.symm.trans same)
            exact goes
          rw [executeAll_cons_of_stop stops]
          exact ⟨next, returned, soFar, quiet⟩

end

end Pipeline

end Intake
