/-
Module: Intake.Exception.Record
Purpose: What is written down about an exception, and the store that keeps it.
Main exports: Side, FollowUp, ExceptionRecord, ExceptionRecord.toJson, ExceptionStore, ExceptionStore.record,
  ExceptionStore.markForRetry, ExceptionStore.takeRetries
-/
import Intake.Fault.Redaction
import Intake.Json.Basic

namespace Intake

/-- The side of the exchange that an exception belongs to. -/
inductive Side where
  | inbound
  | outbound
  deriving Repr, DecidableEq

def Side.name : Side → String
  | .inbound => "inbound"
  | .outbound => "outbound"

/-- What has to follow an exception. -/
inductive FollowUp where
  | notifyPartner
  | none
  deriving Repr, DecidableEq

def FollowUp.name : FollowUp → String
  | .notifyPartner => "notify_partner"
  | .none => "no_follow_up"

def FollowUp.ofNotice (notify : Bool) : FollowUp := if notify then .notifyPartner else .none

/-- The identifier under which an exception without one is filed. -/
def unknownCorrelationId : String := "unknown"

/-- One exception as it is stored. -/
structure ExceptionRecord where
  side : Side
  correlationId : String
  source : String
  kind : String
  message : String
  followUp : FollowUp
  deriving Repr, DecidableEq

/-- The record of a fault, with its text made safe. -/
def ExceptionRecord.ofFault (side : Side) (correlationId source : String) (fault : Fault)
    (followUp : FollowUp) : ExceptionRecord :=
  { side, correlationId, source, kind := fault.kind, message := fault.sanitizedMessage, followUp }

/-- A record in its JSON form. -/
def ExceptionRecord.toJson (r : ExceptionRecord) : Json :=
  .ofFields [
    ("target", .string r.side.name),
    ("correlation_id", .string r.correlationId),
    ("source", .string r.source),
    ("kind", .string r.kind),
    ("message", .string r.message),
    ("disposition", .string r.followUp.name)]

/-- The exceptions recorded so far, oldest first, and the identifiers marked for another try, each
once.  A store that is read-only refuses every write. -/
structure ExceptionStore where
  records : List ExceptionRecord
  retries : List String
  readOnly : Bool
  deriving Repr, DecidableEq

namespace ExceptionStore

def empty : ExceptionStore := ⟨[], [], false⟩

/-- An empty store that refuses every write. -/
def refusing : ExceptionStore := ⟨[], [], true⟩

/-- Why a read-only store refuses a write. -/
def refusal : StoreError := .rejected "store is read-only"

/-- Whether the store takes a write. -/
def reply (s : ExceptionStore) : Except StoreError Unit :=
  if s.readOnly then .error refusal else .ok ()

def record (s : ExceptionStore) (r : ExceptionRecord) : Except StoreError ExceptionStore :=
  s.reply.map fun _ => { s with records := s.records ++ [r] }

/-- Marks an identifier for another try; marking it again changes nothing. -/
def markForRetry (s : ExceptionStore) (id : String) : Except StoreError ExceptionStore :=
  s.reply.map fun _ => if id ∈ s.retries then s else { s with retries := s.retries ++ [id] }

/-- The identifiers marked for another try, and the store without the marks. -/
def takeRetries (s : ExceptionStore) : List String × ExceptionStore :=
  (s.retries, { s with retries := [] })

def recordsFor (s : ExceptionStore) (id : String) : List ExceptionRecord :=
  s.records.filter (·.correlationId == id)

def isMarked (s : ExceptionStore) (id : String) : Bool := s.retries.contains id

end ExceptionStore

end Intake
