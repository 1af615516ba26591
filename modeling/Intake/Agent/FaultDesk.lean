/-
Module: Intake.Agent.FaultDesk
Purpose: What becomes of a fault that an agent hands over.
Main exports: Agent.Delegation.side, Agent.Delegation.record, ExceptionStore.takeOver
-/
import Intake.Agent.Basic

namespace Intake

namespace Agent.Delegation

/-- A fault belongs to the outbound side if the item has only the identifier of a message being
sent. -/
def side (d : Delegation) : Side :=
  match d.context with
  | some c => if c.receivedId.isNone && c.sendingId.isSome then .outbound else .inbound
  | none => .inbound

def correlationId? (d : Delegation) : Option String := d.context.bind Context.correlationId?

def wantsNotice (d : Delegation) : Bool := (d.context.map Context.wantsNotice).getD false

/-- The agent and the phase. -/
def source (d : Delegation) : String := d.agent ++ ":" ++ d.phase.name

def record (d : Delegation) : ExceptionRecord :=
  .ofFault d.side (d.correlationId?.getD unknownCorrelationId) d.source d.fault
    (.ofNotice d.wantsNotice)

end Agent.Delegation

namespace ExceptionStore

/-- A store after a write that it may refuse; a refusal changes nothing. -/
def orUnchanged (s : ExceptionStore) : Except StoreError ExceptionStore → ExceptionStore
  | .ok s' => s'
  | .error _ => s

/-- Records a fault that was handed over, and marks its item for another try if it has an identifier.
The mark does not depend on whether the record was taken. -/
def takeOver (s : ExceptionStore) (d : Agent.Delegation) : ExceptionStore :=
  let recorded := s.orUnchanged (s.record d.record)
  match d.correlationId? with
  | some id => recorded.orUnchanged (recorded.markForRetry id)
  | none => recorded

/-- A store after guards put records into it. -/
def addRecords (s : ExceptionStore) (records : List ExceptionRecord) : ExceptionStore :=
  { s with records := s.records ++ records }

end ExceptionStore

end Intake
