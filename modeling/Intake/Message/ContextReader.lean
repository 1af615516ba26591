/-
Module: Intake.Message.ContextReader
Purpose: Reads a context from its JSON form.
Main exports: Context.read?

A context is written as an object of its fields or as an array of all of them in order.  In an object
the optional fields may be missing, unknown fields are passed over whatever they hold, and a known field
that occurs twice is an error.
-/
import Intake.Json.Reader
import Intake.Message.Context

namespace Intake

namespace Json.Written

/-- The fields of an object for a record with the given field names: all names have a value, and no
field of the record occurs twice. -/
def recordFields? (known : List String) (fields : List (Option String × Written)) :
    Option (List (String × Written)) :=
  match fields.mapM fun (name, value) => name.map (·, value) with
  | none => none
  | some named =>
    let relevant := named.filter fun (name, _) => known.contains name
    if (relevant.map Prod.fst).Nodup then some relevant else none

def text? : Written → Option String
  | .string s => s
  | _ => none

/-- A text or null. -/
def optionalText? : Written → Option (Option String)
  | .null => some none
  | .string s => s.map some
  | _ => none

/-- An object of texts; of several fields of one name the last counts. -/
def textTable? : Written → Option (Table String)
  | .object fields =>
    (fields.mapM fun ((name, value) : Option String × Written) =>
      match name, text? value with
      | some name, some value => some (name, value)
      | _, _ => none).map Table.ofList
  | _ => none

end Json.Written

open Json.Written

/-- A field of a record that may be missing. -/
def optionalField? (read : Json.Written → Option (Option α)) :
    Option Json.Written → Option (Option α)
  | none => some none
  | some written => read written

/-- The detail of a result: an object or an array of its code, message and step. -/
def Detail.read? : Json.Written → Option Detail
  | .array [code, message, step] => do
    return ⟨← text? code, ← text? message, ← optionalText? step⟩
  | .object fields => do
    let fields ← recordFields? ["code", "message", "step"] fields
    let field (name : String) := Table.lookup? name fields
    return {
      code := ← (field "code").bind text?
      message := ← (field "message").bind text?
      step := ← optionalField? optionalText? (field "step") }
  | _ => none

namespace Context

/-- A detail or null. -/
def readResult? : Json.Written → Option (Option Detail)
  | .null => some none
  | written => (Detail.read? written).map some

/-- The levels of nesting that the context itself leaves to its payload. -/
def payloadDepth : Nat := Json.depthLimit - 1

def ofWritten? : Json.Written → Option Context
  | .array [pipeline, received, sending, payload, properties, result] => do
    return {
      pipeline := ← text? pipeline
      receivedId := ← optionalText? received
      sendingId := ← optionalText? sending
      payload := ← payload.value? payloadDepth
      properties := ← textTable? properties
      result := ← readResult? result }
  | .object fields => do
    let fields ← recordFields?
      ["pipeline", "received_message_id", "sending_message_id", "payload", "properties", "result"]
      fields
    let field (name : String) := Table.lookup? name fields
    return {
      pipeline := ← (field "pipeline").bind text?
      receivedId := ← optionalField? optionalText? (field "received_message_id")
      sendingId := ← optionalField? optionalText? (field "sending_message_id")
      payload := ← (field "payload").bind (·.value? payloadDepth)
      properties := ←
        match field "properties" with
        | none => some .empty
        | some written => textTable? written
      result := ← optionalField? readResult? (field "result") }
  | _ => none

/-- The context that a JSON text holds. -/
def read? (s : String) : Option Context := (Json.readWritten? s.toList).bind ofWritten?

end Context

end Intake
