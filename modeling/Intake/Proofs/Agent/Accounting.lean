/-
Module: Intake.Proofs.Agent.Accounting
Purpose: Every fault of a run of an agent is absorbed by a guard or handed over, and never both.
Main exports: Agent.forall₂_covers_of_ok, Agent.raisedIn_of_error, Agent.reported_of_absorbed,
  Agent.Course.faults_split, Agent.Course.of_two_faults, Agent.Course.error_of_absorbed,
  Agent.faults_accounted_once

A pipeline that returns an outcome has absorbed what faults it raised, and one that returns a fault has
absorbed none.  Which of the two happened in which pipeline is what tells the courses of a run apart.
-/
import Mathlib.Data.List.Forall2
import Intake.Agent.Faults
import Intake.Proofs.Agent.Phases
import Intake.Proofs.Pipeline.Fate

namespace Intake

namespace Agent

open Pipeline (Fate execute_fate)

/-! ### One pipeline

An execution raises one fault at most, and either a guard absorbs it or it leaves the pipeline.  What was
absorbed and what is handed over are compared with what was raised. -/

variable {node : Pipeline} {c : Context} {outcome : Outcome} {fault : Fault}

/-- Where an outcome is returned, every fault is absorbed. -/
theorem forall₂_covers_of_ok (phase : Phase) (result : (node.execute c).result = .ok outcome) :
    List.Forall₂ Absorption.Covers (absorbedIn phase (node.execute c).trace)
      (raisedIn phase (node.execute c).trace) := by
  rw [absorbedIn, raisedIn]
  cases execute_fate node c with
  | quiet none_raised none_offered =>
      rw [none_raised, none_offered]
      exact .nil
  | escaped _ _ error =>
      rw [result] at error
      cases error
  | absorbed one_raised above offered =>
      rw [one_raised, offered]
      exact .cons ⟨rfl, Pipeline.path_of_mem_guardsAbove above, rfl, rfl⟩ .nil

/-- Where a fault is returned, it is the only one, and nothing is absorbed. -/
theorem raisedIn_of_error (phase : Phase) (result : (node.execute c).result = .error fault) :
    absorbedIn phase (node.execute c).trace = [] ∧
      ∃ path, raisedIn phase (node.execute c).trace = [⟨phase, path, fault⟩] := by
  rw [absorbedIn, raisedIn]
  cases execute_fate node c with
  | quiet _ _ ok =>
      rw [result] at ok
      cases ok
  | @escaped path _ one_raised none_offered error =>
      rw [result] at error
      injection error with same
      rw [one_raised, none_offered, same]
      exact ⟨rfl, path, rfl⟩
  | absorbed _ _ _ ok =>
      rw [result] at ok
      cases ok

/-- Faults raised in a pipeline are those of its phase. -/
theorem phase_of_mem_raisedIn {phase : Phase} {trace : List Pipeline.Event} {f : Raised}
    (member : f ∈ raisedIn phase trace) : f.phase = phase := by
  obtain ⟨_, -, rfl⟩ := List.mem_map.mp member
  rfl

/-- So are the faults absorbed in it. -/
theorem phase_of_mem_absorbedIn {phase : Phase} {trace : List Pipeline.Event} {a : Absorption}
    (member : a ∈ absorbedIn phase trace) : a.phase = phase := by
  obtain ⟨_, -, rfl⟩ := List.mem_map.mp member
  rfl

/-- A pipeline raises one fault at most. -/
theorem length_raisedIn_le (phase : Phase) (node : Pipeline) (c : Context) :
    (raisedIn phase (node.execute c).trace).length ≤ 1 := by
  rw [raisedIn, List.length_map]
  cases execute_fate node c with
  | quiet none_raised =>
      rw [none_raised]
      exact Nat.zero_le 1
  | escaped one_raised =>
      rw [one_raised]
      exact Nat.le_refl 1
  | absorbed one_raised =>
      rw [one_raised]
      exact Nat.le_refl 1

/-- A fault that was absorbed is what the pipeline reports, as a failure. -/
theorem reported_of_absorbed {phase : Phase} {a : Absorption}
    (member : a ∈ absorbedIn phase (node.execute c).trace)
    (result : (node.execute c).result = .ok outcome) :
    outcome.succeeded = false ∧
      ∃ f ∈ raisedIn phase (node.execute c).trace, a.Covers f ∧
        outcome.context.result =
          some { Detail.ofFault f.fault with step := some a.offer.record.source } := by
  obtain ⟨offer, offered, rfl⟩ := List.mem_map.mp member
  cases execute_fate node c with
  | quiet _ none_offered =>
      rw [none_offered] at offered
      cases offered
  | escaped _ none_offered =>
      rw [none_offered] at offered
      cases offered
  | @absorbed path fault guard entry one_raised above one_offered ok =>
      rw [one_offered, List.mem_singleton] at offered
      rw [result] at ok
      injection ok with same
      subst offered same
      refine ⟨rfl, ⟨phase, path, fault⟩, ?_, ?_, rfl⟩
      · rw [raisedIn, one_raised]
        exact List.mem_singleton_self _
      · exact ⟨rfl, Pipeline.path_of_mem_guardsAbove above, rfl, rfl⟩

/-! ### Runs

A run goes through two pipelines at most, and through the second only after the first has failed.  So two
faults can be raised at most, and the first of two was absorbed. -/

variable {ι : Type u} {agent : Agent ι} {item : ι} {r : Run}

namespace Course

/-- The faults of a run are those absorbed, one after the other, and then those handed over. -/
theorem faults_split (h : Course agent item r) :
    ∃ absorbed handedOver, agent.transformFault item ++ r.raised = absorbed ++ handedOver ∧
      List.Forall₂ Absorption.Covers r.absorptions absorbed ∧
      List.Forall₂ Delegation.Covers r.delegation.toList handedOver := by
  cases h with
  | @refused fault transformed =>
      refine ⟨[], [⟨.transform, [], fault⟩], ?_, .nil, .cons ⟨rfl, rfl⟩ .nil⟩
      rw [transformFault, transformed]
      rfl
  | @broken c fault transformed result =>
      obtain ⟨none_absorbed, path, one_raised⟩ := raisedIn_of_error .normal result
      refine ⟨[], [⟨.normal, path, fault⟩], ?_, ?_, .cons ⟨rfl, rfl⟩ .nil⟩
      · rw [transformFault, transformed]
        show raisedIn .normal (agent.normal.execute c).trace ++ [] = _
        rw [one_raised]
        rfl
      · show List.Forall₂ _ (absorbedIn .normal (agent.normal.execute c).trace ++ []) []
        rw [none_absorbed]
        exact .nil
  | @completed c outcome transformed result =>
      refine ⟨raisedIn .normal (agent.normal.execute c).trace, [], ?_, ?_, .nil⟩
      · rw [transformFault, transformed]
        rfl
      · show List.Forall₂ _ (absorbedIn .normal (agent.normal.execute c).trace ++ []) _
        rw [List.append_nil]
        exact forall₂_covers_of_ok .normal result
  | @handled c outcome last transformed result failed recovery =>
      refine ⟨raisedIn .normal (agent.normal.execute c).trace ++
        raisedIn .error (agent.error.execute (failureContext outcome)).trace, [], ?_, ?_, .nil⟩
      · rw [transformFault, transformed, List.append_nil]
        rfl
      · exact List.rel_append (forall₂_covers_of_ok .normal result)
          (forall₂_covers_of_ok .error recovery)
  | @lost c outcome fault transformed result failed recovery =>
      obtain ⟨none_absorbed, path, one_raised⟩ := raisedIn_of_error .error recovery
      refine ⟨raisedIn .normal (agent.normal.execute c).trace, [⟨.error, path, fault⟩], ?_, ?_,
        .cons ⟨rfl, rfl⟩ .nil⟩
      · rw [transformFault, transformed, ← one_raised]
        rfl
      · show List.Forall₂ _ (absorbedIn .normal (agent.normal.execute c).trace ++
          absorbedIn .error (agent.error.execute (failureContext outcome)).trace) _
        rw [none_absorbed, List.append_nil]
        exact forall₂_covers_of_ok .normal result

/-- Before the error pipeline one fault is raised at most. -/
theorem length_before_error_le (h : Course agent item r) :
    (agent.transformFault item ++ raisedIn .normal r.normalTrace).length ≤ 1 := by
  cases h with
  | refused transformed =>
      rw [transformFault, transformed]
      exact Nat.le_refl 1
  | broken transformed =>
      rw [transformFault, transformed]
      exact length_raisedIn_le .normal agent.normal _
  | completed transformed =>
      rw [transformFault, transformed]
      exact length_raisedIn_le .normal agent.normal _
  | handled transformed =>
      rw [transformFault, transformed]
      exact length_raisedIn_le .normal agent.normal _
  | lost transformed =>
      rw [transformFault, transformed]
      exact length_raisedIn_le .normal agent.normal _

/-- The error pipeline raises one fault at most. -/
theorem length_in_error_le (h : Course agent item r) :
    (raisedIn .error r.errorTrace).length ≤ 1 := by
  cases h with
  | refused => exact Nat.zero_le 1
  | broken => exact Nat.zero_le 1
  | completed => exact Nat.zero_le 1
  | handled => exact length_raisedIn_le .error agent.error _
  | lost => exact length_raisedIn_le .error agent.error _

/-- What was raised before a fault of the error pipeline was absorbed. -/
theorem absorbed_before_error (h : Course agent item r) (later : raisedIn .error r.errorTrace ≠ []) :
    agent.transformFault item = [] ∧
      List.Forall₂ Absorption.Covers (absorbedIn .normal r.normalTrace)
        (raisedIn .normal r.normalTrace) := by
  cases h with
  | refused => exact absurd rfl later
  | broken => exact absurd rfl later
  | completed => exact absurd rfl later
  | handled transformed result =>
      rw [transformFault, transformed]
      exact ⟨rfl, forall₂_covers_of_ok .normal result⟩
  | lost transformed result =>
      rw [transformFault, transformed]
      exact ⟨rfl, forall₂_covers_of_ok .normal result⟩

/-- A run raises two faults at most. -/
theorem length_faults_le (h : Course agent item r) :
    (agent.transformFault item ++ r.raised).length ≤ 2 := by
  rw [Run.raised, ← List.append_assoc, List.length_append]
  exact Nat.add_le_add h.length_before_error_le h.length_in_error_le

/-- Of two faults the first is one of the normal pipeline that was absorbed, and the second is one of the
error pipeline. -/
theorem of_two_faults (h : Course agent item r) {f g : Raised}
    (two : agent.transformFault item ++ r.raised = [f, g]) :
    f.phase = .normal ∧ g.phase = .error ∧ ∃ a ∈ r.absorptions, a.Covers f := by
  rw [Run.raised, ← List.append_assoc] at two
  have lengths := congrArg List.length two
  rw [List.length_append, List.length_cons, List.length_singleton] at lengths
  have one_before :
      (agent.transformFault item ++ raisedIn .normal r.normalTrace).length = [f].length := by
    have before_le := h.length_before_error_le
    have later_le := h.length_in_error_le
    rw [List.length_singleton]
    omega
  rw [← List.singleton_append] at two
  obtain ⟨before, later⟩ := List.append_inj two one_before
  obtain ⟨transformed, absorbed⟩ :=
    h.absorbed_before_error (later ▸ List.cons_ne_nil g [])
  rw [transformed, List.nil_append] at before
  rw [before] at absorbed
  cases absorbed_eq : absorbedIn .normal r.normalTrace with
  | nil =>
      rw [absorbed_eq] at absorbed
      cases absorbed
  | cons a others =>
      rw [absorbed_eq] at absorbed
      cases absorbed with
      | cons covers _ =>
          have first : a ∈ r.absorptions := by
            rw [Run.absorptions, absorbed_eq]
            exact List.mem_append_left _ List.mem_cons_self
          exact ⟨phase_of_mem_raisedIn (before ▸ List.mem_singleton_self f),
            phase_of_mem_raisedIn (later ▸ List.mem_singleton_self g), a, first, covers⟩

/-- An absorption in the normal pipeline starts the error pipeline, on a context that carries the fault. -/
theorem error_of_absorbed (h : Course agent item r) {a : Absorption}
    (member : a ∈ absorbedIn .normal r.normalTrace) :
    ∃ f ∈ agent.transformFault item ++ r.raised, a.Covers f ∧
      ∃ outcome, r.FailsWith outcome ∧
        r.error = some (agent.error.execute (failureContext outcome)) ∧
        (failureContext outcome).result =
          some { Detail.ofFault f.fault with step := some a.offer.record.source } := by
  cases h with
  | refused => cases member
  | broken _ result =>
      change a ∈ absorbedIn .normal (agent.normal.execute _).trace at member
      rw [(raisedIn_of_error .normal result).1] at member
      cases member
  | completed _ result succeeded =>
      obtain ⟨failed, -⟩ := reported_of_absorbed member result
      rw [succeeded] at failed
      cases failed
  | handled _ result failed =>
      obtain ⟨-, f, raised, covers, reported⟩ := reported_of_absorbed member result
      refine ⟨f, ?_, covers, _, ⟨_, rfl, result, failed⟩, rfl, ?_⟩
      · exact List.mem_append_right _ (List.mem_append_left _ raised)
      · rw [failureContext_eq, reported]
        rfl
  | lost _ result failed =>
      obtain ⟨-, f, raised, covers, reported⟩ := reported_of_absorbed member result
      refine ⟨f, ?_, covers, _, ⟨_, rfl, result, failed⟩, rfl, ?_⟩
      · exact List.mem_append_right _ (List.mem_append_left _ raised)
      · rw [failureContext_eq, reported]
        rfl

/-- Between guarded pipelines nothing but an item that cannot be transformed is handed over. -/
theorem phase_of_guarded (h : Course agent item r) (normal : agent.normal.guard?.isSome = true)
    (error : agent.error.guard?.isSome = true) {phase : Phase} (handed : r.outcome = .delegated phase) :
    phase = .transform := by
  cases h with
  | refused =>
      injection handed with same
      exact same.symm
  | broken _ result =>
      obtain ⟨outcome, ok⟩ := Pipeline.result_of_guarded normal _
      rw [result] at ok
      cases ok
  | completed => cases handed
  | @handled _ _ last =>
      cases succeeded : last.succeeded with
      | true => simp [succeeded] at handed
      | false => simp [succeeded] at handed
  | lost _ _ _ recovery =>
      obtain ⟨outcome, ok⟩ := Pipeline.result_of_guarded error _
      rw [recovery] at ok
      cases ok

end Course

/-- The faults of a run are those that guards absorbed, each by an absorption of its own, followed by those
that were handed over, each by a delegation of its own.  There are two at most, and of two the first is
one of the normal pipeline that was absorbed, and the second one of the error pipeline.  A fault that was
absorbed in the normal pipeline starts the error pipeline, on a context with its detail as the result.
Where a guard stands at the root of both pipelines, neither hands over a fault. -/
theorem faults_accounted_once (agent : Agent ι) (item : ι) :
    let run := agent.run item
    let faults := agent.faults item
    (∃ absorbed handedOver, faults = absorbed ++ handedOver ∧
        List.Forall₂ Absorption.Covers run.absorptions absorbed ∧
        List.Forall₂ Delegation.Covers run.delegation.toList handedOver) ∧
      faults.length = run.absorptions.length + run.delegation.toList.length ∧
      faults.length ≤ 2 ∧
      (∀ f g, faults = [f, g] →
        f.phase = .normal ∧ g.phase = .error ∧ ∃ a ∈ run.absorptions, a.Covers f) ∧
      (∀ a ∈ run.absorptions, a.phase = .normal → ∃ f ∈ faults, a.Covers f ∧
        ∃ outcome, run.FailsWith outcome ∧
          run.error = some (agent.error.execute (failureContext outcome)) ∧
          (failureContext outcome).result =
            some ⟨f.fault.kind, f.fault.sanitizedMessage, some a.offer.record.source⟩) ∧
      (agent.normal.guard?.isSome = true → agent.error.guard?.isSome = true →
        ∀ phase, run.outcome = .delegated phase → phase = .transform) := by
  intro run faults
  have h : Course agent item run := run_course agent item
  obtain ⟨absorbed, handedOver, split, absorptions, delegations⟩ := h.faults_split
  refine ⟨⟨absorbed, handedOver, split, absorptions, delegations⟩, ?_, h.length_faults_le,
    fun f g two => h.of_two_faults two, ?_,
    fun normal error phase handed => h.phase_of_guarded normal error handed⟩
  · rw [absorptions.length_eq, delegations.length_eq, ← List.length_append]
    exact congrArg List.length split
  · intro a member inNormal
    rcases List.mem_append.mp member with early | late
    · exact h.error_of_absorbed early
    · rw [phase_of_mem_absorbedIn late] at inNormal
      cases inNormal

end Agent

end Intake
