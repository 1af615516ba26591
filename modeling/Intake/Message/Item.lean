/-
Module: Intake.Message.Item
Purpose: A received item as it arrives, and its conversion into a context.
Main exports: Item, Item.payload, Item.toContext
-/
import Intake.Text.Utf8
import Intake.Json.Reader
import Intake.Message.Context

namespace Intake

/-- A unit of work as a receiver found it. -/
structure Item where
  source : String
  messageId : Option String
  body : Bytes
  properties : Table String
  deriving Repr, DecidableEq

namespace Item

/-- An item with a source and a body only. -/
def ofBody (source : String) (body : Bytes) : Item :=
  { source, messageId := none, body, properties := .empty }

/-- The property that names where an item came from. -/
def sourceProperty : String := "source"

/-- What a text stands for: the value of a JSON document, or else itself. -/
def payloadOfText (text : List Char) : Json :=
  match Json.readChars? text with
  | some value => value
  | none => .string (String.ofList text)

/-- What a body stands for.  A JSON document is UTF-8 throughout, so a body that is not has neither
form. -/
def payload (body : Bytes) : Except Utf8.Error Json := (Utf8.decode body).map payloadOfText

/-- The context of an item for a named pipeline.  An item without an identifier of its own gets
`freshId`; an empty body and a body that is not UTF-8 are faults. -/
def toContext (pipeline freshId : String) (item : Item) : Except Fault Context :=
  if item.body = [] then
    .error (.transformFailed ("empty body received from '" ++ item.source ++ "'"))
  else
    match payload item.body with
    | .error e => .error (.transformFailed ("body is neither JSON nor UTF-8: " ++ e.message))
    | .ok payload =>
      .ok {
        pipeline
        receivedId := some (item.messageId.getD freshId)
        sendingId := none
        payload
        properties := item.properties.put sourceProperty item.source
        result := none }

end Item

end Intake
