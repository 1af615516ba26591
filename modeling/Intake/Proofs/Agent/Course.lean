/-
Module: Intake.Proofs.Agent.Course
Purpose: The five courses that a run of an agent can take.
Main exports: Agent.Course, Agent.run_course, Agent.failureContext_eq

A run ends with a refused item, with a fault of the normal pipeline, with its success, with an outcome
of the error pipeline, or with a fault of the error pipeline.  `Course` says for each of these what
led to it and what it leaves behind; statements about runs follow by cases.
-/
import Intake.Agent.Basic

namespace Intake

namespace Agent

variable {ι : Type u} {agent : Agent ι} {item : ι}

/-- The context for the error pipeline is that of the failure, with its own result, or else the fault that
was absorbed on the way, or else a fixed text. -/
theorem failureContext_eq (outcome : Outcome) :
    failureContext outcome =
      { outcome.context with
        result := some ((outcome.context.result.or outcome.fault).getD unexplainedFailure) } := by
  obtain ⟨⟨pipeline, received, sending, payload, properties, result⟩, succeeded, proceeds, fault⟩ := outcome
  cases result with
  | some detail => rfl
  | none => rfl

/-- What leads to a run, and what it leaves behind. -/
inductive Course (agent : Agent ι) (item : ι) : Run → Prop where
  /-- The item cannot be transformed. -/
  | refused {fault : Fault} (transformed : agent.transform item = .error fault) :
      Course agent item
        { outcome := .delegated .transform, normal := none, error := none
          delegation := some ⟨agent.name, .transform, fault, none⟩ }
  /-- A fault leaves the normal pipeline. -/
  | broken {c : Context} {fault : Fault} (transformed : agent.transform item = .ok c)
      (result : (agent.normal.execute c).result = .error fault) :
      Course agent item
        { outcome := .delegated .normal, normal := some (agent.normal.execute c), error := none
          delegation := some ⟨agent.name, .normal, fault, some c⟩ }
  /-- The normal pipeline succeeds. -/
  | completed {c : Context} {outcome : Outcome} (transformed : agent.transform item = .ok c)
      (result : (agent.normal.execute c).result = .ok outcome)
      (succeeded : outcome.succeeded = true) :
      Course agent item
        { outcome := .completed outcome.context, normal := some (agent.normal.execute c)
          error := none, delegation := none }
  /-- The normal pipeline fails, and the error pipeline ends with an outcome. -/
  | handled {c : Context} {outcome last : Outcome} (transformed : agent.transform item = .ok c)
      (result : (agent.normal.execute c).result = .ok outcome)
      (failed : outcome.succeeded = false)
      (recovery : (agent.error.execute (failureContext outcome)).result = .ok last) :
      Course agent item
        { outcome := if last.succeeded then .recovered last.context else .failed last.context
          normal := some (agent.normal.execute c)
          error := some (agent.error.execute (failureContext outcome)), delegation := none }
  /-- The normal pipeline fails, and a fault leaves the error pipeline. -/
  | lost {c : Context} {outcome : Outcome} {fault : Fault}
      (transformed : agent.transform item = .ok c)
      (result : (agent.normal.execute c).result = .ok outcome)
      (failed : outcome.succeeded = false)
      (recovery : (agent.error.execute (failureContext outcome)).result = .error fault) :
      Course agent item
        { outcome := .delegated .error, normal := some (agent.normal.execute c)
          error := some (agent.error.execute (failureContext outcome))
          delegation := some ⟨agent.name, .error, fault, some (failureContext outcome)⟩ }

/-- Every run has taken one of these courses. -/
theorem run_course (agent : Agent ι) (item : ι) : Course agent item (agent.run item) := by
  cases transformed : agent.transform item with
  | error fault =>
      simp only [run, transformed]
      exact .refused transformed
  | ok c =>
      cases result : (agent.normal.execute c).result with
      | error fault =>
          simp only [run, transformed, result]
          exact .broken transformed result
      | ok outcome =>
          cases succeeded : outcome.succeeded with
          | true =>
              simp only [run, transformed, result, succeeded, if_true]
              exact .completed transformed result succeeded
          | false =>
              simp only [run, transformed, result, succeeded, Bool.false_eq_true, if_false, recover]
              cases recovery : (agent.error.execute (failureContext outcome)).result with
              | error fault => exact .lost transformed result succeeded recovery
              | ok last => exact .handled transformed result succeeded recovery

end Agent

end Intake
