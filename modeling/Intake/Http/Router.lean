/-
Module: Intake.Http.Router
Purpose: Finds the handler of a request among chains of handlers.
Main exports: Http.Handled, Http.Handler, Http.Handler.fixed, Http.Handler.failing, Http.Router,
  Http.Router.route

There is one chain for GET and one for POST.  The first handler of the chain that accepts the request
runs, and no other.
-/
import Intake.Fault.Redaction
import Intake.Http.Request
import Intake.Message.Item

namespace Intake

namespace Http

/-- What a handler does with a request: the items that it passes on, and its reply. -/
structure Handled where
  items : List Item
  reply : Except Fault Response

/-- Answers the requests that it accepts. -/
structure Handler where
  name : String
  accepts : Request → Bool
  handle : Request → Handled

namespace Handler

/-- Answers one path with a status and the handler's name. -/
def fixed (name path : String) (status : Nat) : Handler where
  name
  accepts request := request.path == path
  handle _ := ⟨[], .ok (.text status name)⟩

/-- Fails on one path. -/
def failing (name path : String) : Handler where
  name
  accepts request := request.path == path
  handle _ := ⟨[], .error (.stepFailed name "handler failed")⟩

end Handler

/-- The chains of handlers, in the order in which they are asked. -/
structure Router where
  gets : List Handler
  posts : List Handler

/-- What became of a request: the handler that ran with its place in the chain, the items that it passed
on, and the response. -/
structure Routed where
  ran : Option (Nat × Handler)
  items : List Item
  response : Response

/-- The first handler that accepts a request, and its place when the chain starts at `place`. -/
def firstAccepting (request : Request) (place : Nat) : List Handler → Option (Nat × Handler)
  | [] => none
  | handler :: rest =>
    if handler.accepts request then some (place, handler)
    else firstAccepting request (place + 1) rest

namespace Router

def empty : Router := ⟨[], []⟩

/-- The chain of a method, and the status where no handler of it accepts the request. -/
def chain? (router : Router) : Method → Option (List Handler × Nat)
  | .get => some (router.gets, 406)
  | .post => some (router.posts, 202)
  | .other _ => none

/-- The response to a reply.  The text of a fault is made safe before it leaves. -/
def responseTo : Except Fault Response → Response
  | .ok response => response
  | .error fault => .text 500 fault.sanitizedMessage

/-- Routes a request to its handler. -/
def route (router : Router) (request : Request) : Routed :=
  match router.chain? request.method with
  | none => ⟨none, [], .empty 405⟩
  | some (chain, unmatched) =>
    match firstAccepting request 0 chain with
    | none => ⟨none, [], .empty unmatched⟩
    | some (place, handler) =>
      let handled := handler.handle request
      ⟨some (place, handler), handled.items, responseTo handled.reply⟩

end Router

end Http

end Intake
