/-
Module: Intake.Agent.Faults
Purpose: The faults of a run of an agent, and what became of each of them.
Main exports: Agent.Raised, Agent.Absorption, Agent.Run.raised, Agent.Run.absorptions, Agent.faults,
  Agent.Absorption.Covers, Agent.Delegation.Covers
-/
import Intake.Agent.Basic
import Intake.Pipeline.Trace

namespace Intake

namespace Agent

/-- A fault that was raised: the phase of the run, the place of the step in the pipeline of this phase, and
the fault.  Transformation has no steps, and its place is the root. -/
structure Raised where
  phase : Phase
  path : Pipeline.Path
  fault : Fault

/-- A fault that a guard absorbed: the phase of the run, and what the guard offered to its store. -/
structure Absorption where
  phase : Phase
  offer : Pipeline.Offer

/-- The faults of the steps in a trace. -/
def raisedIn (phase : Phase) (trace : List Pipeline.Event) : List Raised :=
  (Pipeline.raised trace).map fun (path, fault) => ⟨phase, path, fault⟩

/-- The absorptions in a trace. -/
def absorbedIn (phase : Phase) (trace : List Pipeline.Event) : List Absorption :=
  (Pipeline.offers trace).map fun offer => ⟨phase, offer⟩

/-- What happened in the normal pipeline, and in the error pipeline. -/
def Run.normalTrace (r : Run) : List Pipeline.Event := (r.normal.map Pipeline.Run.trace).getD []

def Run.errorTrace (r : Run) : List Pipeline.Event := (r.error.map Pipeline.Run.trace).getD []

/-- The faults of the steps of a run, in order. -/
def Run.raised (r : Run) : List Raised :=
  raisedIn .normal r.normalTrace ++ raisedIn .error r.errorTrace

/-- The absorptions of a run, in order. -/
def Run.absorptions (r : Run) : List Absorption :=
  absorbedIn .normal r.normalTrace ++ absorbedIn .error r.errorTrace

variable {ι : Type u}

/-- The fault of the transformation of an item, if it fails. -/
def transformFault (agent : Agent ι) (item : ι) : List Raised :=
  match agent.transform item with
  | .ok _ => []
  | .error fault => [⟨.transform, [], fault⟩]

/-- The faults raised in the course of a run, in order. -/
def faults (agent : Agent ι) (item : ι) : List Raised :=
  agent.transformFault item ++ (agent.run item).raised

/-- An absorption is the one of a fault: a guard above the step that raised it has offered a record of
it. -/
def Absorption.Covers (a : Absorption) (f : Raised) : Prop :=
  a.phase = f.phase ∧ a.offer.path <+: f.path ∧ a.offer.record.kind = f.fault.kind ∧
    a.offer.record.message = f.fault.sanitizedMessage

/-- A delegation hands over a fault, and names its phase. -/
def Delegation.Covers (d : Delegation) (f : Raised) : Prop := d.phase = f.phase ∧ d.fault = f.fault

end Agent

end Intake
