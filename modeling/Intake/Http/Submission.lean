/-
Module: Intake.Http.Submission
Purpose: The handlers by which partners submit messages, and the router of a receiver.
Main exports: Http.isUnder, Http.Handler.ping, Http.Handler.submit, Http.Receiver,
  Http.Receiver.router, Http.Receiver.respond
-/
import Intake.Http.Router
import Intake.Observe.Metrics
import Intake.Receiver.Basic
import Intake.Receiver.Settings

namespace Intake

namespace Http

/-- What stays of a text behind another that it starts with. -/
def afterPrefix? : List Char → List Char → Option (List Char)
  | [], s => some s
  | _ :: _, [] => none
  | c :: front, d :: s => if c = d then afterPrefix? front s else none

/-- Whether a path is `base` itself or goes on behind it at the boundary of a segment. -/
def isUnder (base path : String) : Bool :=
  match afterPrefix? base.toList path.toList with
  | none => false
  | some rest =>
    rest.isEmpty || base.toList.getLast? == some '/' || rest.head? == some '/'

/-- The header with the identifier that the sender gave the message. -/
def messageIdHeader : String := "message-id"

def contentTypeHeader : String := "content-type"

namespace Handler

/-- Tells a partner that the path can be reached. -/
def ping (path : String) : Handler where
  name := "ping"
  accepts request := request.path == path
  handle _ := ⟨[], .ok (.text 200 "ok")⟩

/-- The item that a request submits. -/
def submittedItem (source : String) (request : Request) : Item where
  source
  messageId := (request.header? messageIdHeader).map trim
  body := request.body
  properties :=
    let peer := Table.empty.put "peer" request.peer
    match request.header? contentTypeHeader with
    | some contentType => peer.put "content_type" contentType
    | none => peer

/-- Passes the bodies of requests on as items; the reply repeats the identifier of the item. -/
def submit (source path : String) (items : ItemHandler) : Handler where
  name := "submit_message"
  accepts request := isUnder path request.path
  handle request :=
    if request.body = [] then ⟨[], .ok (.text 400 "empty body")⟩
    else
      let item := submittedItem source request
      ⟨[item], (items item).map fun _ => .text 202 (item.messageId.getD "")⟩

end Handler

/-- A receiver of messages over HTTP, with handlers of its own behind the built-in ones. -/
structure Receiver where
  name : String
  settings : HttpSettings
  gets : List Handler
  posts : List Handler

namespace Receiver

def create (name : String) : Receiver := ⟨name, .standard, [], []⟩

/-- The built-in handlers before all others. -/
def router (receiver : Receiver) (items : ItemHandler) : Router where
  gets := .ping receiver.settings.submitPath :: receiver.gets
  posts := .submit receiver.name receiver.settings.submitPath items :: receiver.posts

/-- A request without its body. -/
structure Head where
  method : Method
  path : String
  query : Option String
  headers : List (String × Bytes)
  peer : String
  deriving Repr, DecidableEq

/-- What becomes of a request whose body is read from the connection.  Where the body cannot be read to
its end, no handler is asked. -/
def respond (router : Router) (head : Head) (body : Option Bytes) : Routed :=
  match body with
  | none => ⟨none, [], .empty 400⟩
  | some body =>
    router.route ⟨head.method, head.path, head.query, head.headers, body, head.peer⟩

/-- Each request is counted, whatever becomes of it. -/
def requestEvents : List Metrics.Event := [.httpRequest]

end Receiver

end Http

end Intake
