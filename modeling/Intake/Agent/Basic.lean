/-
Module: Intake.Agent.Basic
Purpose: One run of an agent over an item: transformation, normal pipeline, and error pipeline.
Main exports: Agent.Phase, Agent.RunOutcome, Agent.Delegation, Agent.Run.events, Agent, Agent.run, Agent.handle
-/
import Intake.Observe.Metrics
import Intake.Pipeline.Basic

namespace Intake

namespace Agent

/-- The part of a run in which a fault escaped. -/
inductive Phase where
  | transform
  | normal
  | error
  deriving Repr, DecidableEq

/-- The name of a phase in logs and records. -/
def Phase.name : Phase → String
  | .transform => "transform"
  | .normal => "normal_pipeline"
  | .error => "error_pipeline"

/-- How a run ended: the normal pipeline succeeded, or it failed and the error pipeline succeeded, or
both failed, or a fault escaped and was handed over. -/
inductive RunOutcome where
  | completed (context : Context)
  | recovered (context : Context)
  | failed (context : Context)
  | delegated (phase : Phase)
  deriving Repr

def RunOutcome.label : RunOutcome → String
  | .completed _ => "completed"
  | .recovered _ => "recovered"
  | .failed _ => "failed"
  | .delegated _ => "delegated"

def RunOutcome.context? : RunOutcome → Option Context
  | .completed c => some c
  | .recovered c => some c
  | .failed c => some c
  | .delegated _ => none

/-- What an agent hands over when a fault escapes; the context is the last one known before the
fault, and there is none before the transformation succeeds. -/
structure Delegation where
  agent : String
  phase : Phase
  fault : Fault
  context : Option Context
  deriving Repr

/-- A run: its outcome, the runs of the pipelines that were started, and what was handed over. -/
structure Run where
  outcome : RunOutcome
  normal : Option Pipeline.Run
  error : Option Pipeline.Run
  delegation : Option Delegation

/-- Everything that happened in the pipelines of a run, in order. -/
def Run.trace (r : Run) : List Pipeline.Event :=
  ((r.normal.map Pipeline.Run.trace).getD []) ++ ((r.error.map Pipeline.Run.trace).getD [])

/-- The event by which an outcome is counted. -/
def RunOutcome.event : RunOutcome → Metrics.Event
  | .completed _ => .itemCompleted
  | .recovered _ => .itemRecovered
  | .failed _ => .itemFailed
  | .delegated _ => .itemDelegated

end Agent

/-- The events that the guards of a pipeline count: one for each record that a store took. -/
def Pipeline.countedEvents (trace : List Pipeline.Event) : List Metrics.Event :=
  (Pipeline.acceptedRecords trace).map fun _ => .exceptionRecorded

/-- What a run that took a span of time adds to the counters, in order. -/
def Agent.Run.events (r : Agent.Run) (time : Duration) : List Metrics.Event :=
  .itemReceived :: Pipeline.countedEvents r.trace ++ [.processed time, r.outcome.event]

/-- An agent takes items of type `ι` through a normal pipeline, and through an error pipeline where the
normal one fails. -/
structure Agent (ι : Type u) where
  name : String
  transform : ι → Except Fault Context
  normal : Pipeline
  error : Pipeline

namespace Agent

variable {ι : Type u}

/-- The detail of a failure that left none. -/
def unexplainedFailure : Detail :=
  ⟨"pipeline_failed", "normal pipeline reported failure", none⟩

/-- The context that the error pipeline is given; it always holds a result. -/
def failureContext (outcome : Outcome) : Context :=
  match outcome.context.result with
  | some _ => outcome.context
  | none => outcome.context.withResult (outcome.fault.getD unexplainedFailure)

/-- Runs the error pipeline on the context of a failure. -/
def recover (agent : Agent ι) (normal : Pipeline.Run) (failed : Context) : Run :=
  let run := agent.error.execute failed
  match run.result with
  | .ok outcome =>
    { outcome := if outcome.succeeded then .recovered outcome.context else .failed outcome.context
      normal := some normal, error := some run, delegation := none }
  | .error fault =>
    { outcome := .delegated .error, normal := some normal, error := some run
      delegation := some ⟨agent.name, .error, fault, some failed⟩ }

/-- Processes one item to the end. -/
def run (agent : Agent ι) (item : ι) : Run :=
  match agent.transform item with
  | .error fault =>
    { outcome := .delegated .transform, normal := none, error := none
      delegation := some ⟨agent.name, .transform, fault, none⟩ }
  | .ok context =>
    let run := agent.normal.execute context
    match run.result with
    | .error fault =>
      { outcome := .delegated .normal, normal := some run, error := none
        delegation := some ⟨agent.name, .normal, fault, some context⟩ }
    | .ok outcome =>
      if outcome.succeeded then
        { outcome := .completed outcome.context, normal := some run, error := none
          delegation := none }
      else agent.recover run (failureContext outcome)

/-- What a receiver learns about an item that it handed to an agent. -/
def reply (agent : Agent ι) (run : Run) : Except Fault Unit :=
  match run.outcome with
  | .delegated phase =>
    .error (.internalError
      ("agent '" ++ agent.name ++ "' delegated a fault from the " ++ phase.name ++ " phase"))
  | _ => .ok ()

/-- Processes one item for a receiver. -/
def handle (agent : Agent ι) (item : ι) : Except Fault Unit := agent.reply (agent.run item)

end Agent

end Intake
