/-
Module: Intake.Agent.Desk
Purpose: A store that agents hand their faults to, while the marks in it are taken from time to time.
Main exports: ExceptionStore.afterRun, Agent.Visit, Agent.Visit.delegation?, Agent.Desk, Agent.Desk.visit,
  Agent.Desk.after, Agent.Desk.recent

Nothing else writes to the store: guards that record what they absorb have stores of their own.  Agents may
differ from run to run.
-/
import Intake.Agent.FaultDesk

namespace Intake

/-- A store after a run of an agent whose faults it takes over. -/
def ExceptionStore.afterRun (s : ExceptionStore) (run : Agent.Run) : ExceptionStore :=
  match run.delegation with
  | some d => s.takeOver d
  | none => s

namespace Agent

variable {ι : Type u}

def RunOutcome.isDelegated : RunOutcome → Bool
  | .delegated _ => true
  | _ => false

/-- What happens at the store: an agent processes an item, or the marks are taken. -/
inductive Visit (ι : Type u) where
  | run (agent : Agent ι) (item : ι)
  | takeRetries

namespace Visit

def isTaking : Visit ι → Bool
  | .run .. => false
  | .takeRetries => true

/-- Whether a fault escaped in a run. -/
def isDelegated : Visit ι → Bool
  | .run agent item => (agent.run item).outcome.isDelegated
  | .takeRetries => false

/-- What is handed over. -/
def delegation? : Visit ι → Option Delegation
  | .run agent item => (agent.run item).delegation
  | .takeRetries => none

end Visit

/-- The store, and what was returned each time the marks were taken. -/
structure Desk where
  store : ExceptionStore
  taken : List (List String)
  deriving Repr, DecidableEq

namespace Desk

def opening : Desk := ⟨.empty, []⟩

def visit (desk : Desk) : Visit ι → Desk
  | .run agent item => { desk with store := desk.store.afterRun (agent.run item) }
  | .takeRetries =>
    let (ids, store) := desk.store.takeRetries
    ⟨store, desk.taken ++ [ids]⟩

/-- The desk after visits in some order. -/
def after (visits : List (Visit ι)) : Desk := visits.foldl visit opening

/-- The visits since the marks were last taken. -/
def recent (visits : List (Visit ι)) : List (Visit ι) :=
  (visits.reverse.takeWhile (!·.isTaking)).reverse

end Desk

end Agent

end Intake
