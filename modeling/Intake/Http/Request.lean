/-
Module: Intake.Http.Request
Purpose: Requests as handlers see them, and responses as handlers give them.
Main exports: Http.Method, Http.Request, Http.Request.header?, Http.Response
-/
import Intake.Text.Blank
import Intake.Text.Utf8

namespace Intake

namespace Http

/-- A request method; all that matters of the others is that they are none of the two. -/
inductive Method where
  | get
  | post
  | other (name : String)
  deriving Repr, DecidableEq

/-- The method of a name; names are case-sensitive. -/
def Method.ofName : String → Method
  | "GET" => .get
  | "POST" => .post
  | name => .other name

/-- Everything that a handler may look at.  The values of headers are bytes. -/
structure Request where
  method : Method
  path : String
  query : Option String
  headers : List (String × Bytes)
  body : Bytes
  peer : String
  deriving Repr, DecidableEq

/-- Whether a byte of a header can be read as text: a printable ASCII character, or a tab. -/
def isReadable (b : UInt8) : Bool := (0x20 ≤ b && b < 0x7F) || b == 0x09

/-- The text of a header, if all of it can be read. -/
def headerText? (value : Bytes) : Option String :=
  if value.all isReadable then some (String.ofList (value.map fun b => Char.ofNat b.toNat))
  else none

/-- The text of the first header of a name, in any case.  A header that cannot be read hides others of
its name behind it. -/
def Request.header? (r : Request) (name : String) : Option String :=
  (r.headers.find? fun h => asciiEqIgnoreCase h.1 name).bind fun h => headerText? h.2

/-- What is sent back. -/
structure Response where
  status : Nat
  body : Bytes
  contentType : Option String
  deriving Repr, DecidableEq

namespace Response

/-- A status and nothing else. -/
def empty (status : Nat) : Response := ⟨status, [], none⟩

def text (status : Nat) (body : String) : Response :=
  ⟨status, Utf8.bytesOf body, some "text/plain; charset=utf-8"⟩

end Response

end Http

end Intake
