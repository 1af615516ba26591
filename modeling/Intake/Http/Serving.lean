/-
Module: Intake.Http.Serving
Purpose: What a receiver of messages promises for every request.
Main exports: Http.Covers, Http.Receiver.extras, Http.Receiver.IsSubmission, Http.Receiver.Submits,
  Http.IsFirst, Http.Receiver.Served

A request is for the built-in handler of its method, or for the first of the handlers behind it that accepts
it, or for nobody.  Only the first kind can hand a message over.
-/
import Intake.Http.Submission

namespace Intake

namespace Http

/-- Whether a path is `base` itself or goes on behind it at the boundary of a segment: with a slash, or
behind one that `base` ends in. -/
def Covers (base path : String) : Prop :=
  ∃ rest : String, path = base ++ rest ∧
    (rest = "" ∨ rest.toList.head? = some '/' ∨ base.toList.getLast? = some '/')

/-- Whether the handler at a place of a chain is the first there that accepts a request. -/
def IsFirst (chain : List Handler) (request : Request) (place : Nat) (handler : Handler) : Prop :=
  chain[place]? = some handler ∧ handler.accepts request = true ∧
    ∀ earlier other, earlier < place → chain[earlier]? = some other → other.accepts request = false

namespace Receiver

variable (receiver : Receiver) (items : ItemHandler) (request : Request)

/-- The handlers behind the built-in one of a method, in the order in which they were added. -/
def extras : Method → List Handler
  | .get => receiver.gets
  | .post => receiver.posts
  | .other _ => []

/-- The status of a request that no handler accepts. -/
def unanswered : Method → Nat
  | .get => 406
  | .post => 202
  | .other _ => 405

/-- Whether a request is for the path that takes messages. -/
def IsAddressed : Prop := request.method = .post ∧ Covers receiver.settings.submitPath request.path

/-- Whether a request asks if that path can be reached. -/
def IsPing : Prop := request.method = .get ∧ request.path = receiver.settings.submitPath

/-- Whether a request hands a message over. -/
def IsSubmission : Prop := receiver.IsAddressed request ∧ request.body ≠ []

/-- The item of a request: all that the request says about it, and nothing else. -/
structure Submits (item : Item) : Prop where
  source : item.source = receiver.name
  body : item.body = request.body
  messageId : item.messageId = (request.header? "message-id").map trim
  peer : item.properties.find? "peer" = some request.peer
  contentType : item.properties.find? "content_type" = request.header? "content-type"
  others : ∀ key, key ≠ "peer" → key ≠ "content_type" → item.properties.find? key = none

/-- The answer to a submission by what became of its item. -/
def receipt (item : Item) : Except Fault Unit → Response
  | .ok () => .text 202 (item.messageId.getD "")
  | .error fault => .text 500 fault.sanitizedMessage

/-- What there is to say about a request once it was routed. -/
structure Served (routed : Routed) : Prop where
  /-- The built-in handler of the method comes before all others. -/
  builtIn : receiver.IsAddressed request ∨ receiver.IsPing request ↔ ∃ handler, routed.ran = some (0, handler)
  /-- The item of a submission is handed over once, and the answer tells what became of it. -/
  submission : receiver.IsSubmission request →
    ∃ item, receiver.Submits request item ∧ routed.items = [item] ∧
      routed.response = receipt item (items item)
  /-- Without a body there is no message. -/
  emptyBody : receiver.IsAddressed request → request.body = [] →
    routed.items = [] ∧ routed.response = .text 400 "empty body"
  ping : receiver.IsPing request → routed.items = [] ∧ routed.response = .text 200 "ok"
  /-- Of the handlers behind it, the first one that accepts the request runs, and no other. -/
  extra : ¬ receiver.IsAddressed request → ¬ receiver.IsPing request →
    ∀ place handler, routed.ran = some (place + 1, handler) ↔
      IsFirst (receiver.extras request.method) request place handler
  /-- Items and answer are those of the handler that ran; the text of a fault is made safe. -/
  answered : ∀ place handler, routed.ran = some (place, handler) →
    routed.items = (handler.handle request).items ∧
      routed.response = match (handler.handle request).reply with
        | .ok response => response
        | .error fault => .text 500 fault.sanitizedMessage
  /-- A request that nobody accepts is answered by its method alone. -/
  nobody : routed.ran = none ↔ ¬ receiver.IsAddressed request ∧ ¬ receiver.IsPing request ∧
    ∀ handler ∈ receiver.extras request.method, handler.accepts request = false
  nobodyAnswers : routed.ran = none →
    routed.items = [] ∧ routed.response = .empty (unanswered request.method)
  /-- Whoever takes items is asked about those handed over, and about nothing else. -/
  consulted : ∀ other : ItemHandler, (∀ item ∈ routed.items, other item = items item) →
    ((receiver.router other).route request).items = routed.items ∧
      ((receiver.router other).route request).response = routed.response

end Receiver

end Http

end Intake
