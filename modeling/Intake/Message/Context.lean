/-
Module: Intake.Message.Context
Purpose: The unit of work that a pipeline hands from step to step.
Main exports: Detail, Detail.ofFault, Context, Context.correlationId?, Context.wantsNotice, Context.toJson
-/
import Intake.Table
import Intake.Json.Basic
import Intake.Fault.Redaction

namespace Intake

/-- A result or a failure in a form that may be stored: a code for programs, a text for people, and
the step that it came from, where that is known. -/
structure Detail where
  code : String
  message : String
  step : Option String
  deriving Repr, DecidableEq

/-- The detail of a fault, with its text made safe. -/
def Detail.ofFault (fault : Fault) : Detail := ⟨fault.kind, fault.sanitizedMessage, none⟩

/-- What is known about one item while it is processed.  `pipeline` names the kind of processing, the
two identifiers are those of the message received and of the message being sent, the payload is opaque
to the pipeline, and the properties are settings that travel with the item. -/
structure Context where
  pipeline : String
  receivedId : Option String
  sendingId : Option String
  payload : Json
  properties : Table String
  result : Option Detail
  deriving Repr

namespace Context

/-- The property that says whether the partner is told about an exception. -/
def noticeProperty : String := "notify_on_exception"

/-- A context with nothing in it but its payload. -/
def ofPayload (pipeline : String) (payload : Json) : Context :=
  { pipeline, receivedId := none, sendingId := none, payload, properties := .empty, result := none }

def property? (c : Context) (key : String) : Option String := c.properties.find? key

def setProperty (c : Context) (key value : String) : Context :=
  { c with properties := c.properties.put key value }

def withResult (c : Context) (detail : Detail) : Context := { c with result := some detail }

/-- The identifier that an exception is filed under: that of the received message before that of the
message being sent. -/
def correlationId? (c : Context) : Option String := c.receivedId.or c.sendingId

/-- Whether an exception on this item is followed by a notice to the partner. -/
def wantsNotice (c : Context) : Bool :=
  match c.property? noticeProperty with
  | some value => asciiEqIgnoreCase (trim value) "true"
  | none => false

end Context

/-! ### JSON form -/

def Detail.toJson (d : Detail) : Json :=
  .ofFields [("code", .string d.code), ("message", .string d.message), ("step", .ofText? d.step)]

/-- A context with all its fields. -/
def Context.toJson (c : Context) : Json :=
  .ofFields [
    ("pipeline", .string c.pipeline),
    ("received_message_id", .ofText? c.receivedId),
    ("sending_message_id", .ofText? c.sendingId),
    ("payload", c.payload),
    ("properties", .ofTexts c.properties),
    ("result", .ofOption Detail.toJson c.result)]

end Intake
