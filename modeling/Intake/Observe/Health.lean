/-
Module: Intake.Observe.Health
Purpose: The verdict on the state of the intake, and the pages that report it.
Main exports: Health.Check, Health, Health.checks, Health.isHealthy, Health.Page, Health.reply

The pages are read with GET only and answer any other origin.  A path may end in a slash.
-/
import Intake.Table
import Intake.Observe.Metrics

namespace Intake

/-- The state of one part of the intake. -/
structure Health.Check where
  status : String
  message : Option String
  checkedAt : Nat
  deriving Repr, DecidableEq

/-- What the verdict is computed from: whether the receivers run, when the last item was processed (zero
if none was), and checks added under names of their own. -/
structure Health where
  intakeId : String
  receiversRunning : Bool
  lastItem : Nat
  added : Table Health.Check
  deriving Repr, DecidableEq

namespace Health

def create (intakeId : String) : Health := ⟨intakeId, false, 0, .empty⟩

def setReceiversRunning (h : Health) (running : Bool) : Health :=
  { h with receiversRunning := running }

def setLastItem (h : Health) (time : Nat) : Health := { h with lastItem := time }

def addCheck (h : Health) (name : String) (check : Check) : Health :=
  { h with added := h.added.put name check }

def removeCheck (h : Health) (name : String) : Health := { h with added := h.added.erase name }

/-- The status that counts as good. -/
def good : String := "healthy"

/-- How many seconds may pass without an item. -/
def staleAfter : Nat := 300

def receiversCheck (h : Health) (now : Nat) : Check :=
  if h.receiversRunning then ⟨good, some "Receivers running", now⟩
  else ⟨"unhealthy", some "Receivers not running", now⟩

/-- The age of the last item; an item from the future has the age zero. -/
def itemAge (h : Health) (now : Nat) : Nat := now - h.lastItem

def itemsCheck (h : Health) (now : Nat) : Check :=
  if h.lastItem = 0 then ⟨good, some "No items processed yet", now⟩
  else if staleAfter < h.itemAge now then
    ⟨"stale", some ("No item activity for " ++ toString (h.itemAge now) ++ " seconds"), now⟩
  else ⟨good, some "Recent item activity", now⟩

/-- All checks by name.  An added check replaces a built-in one of the same name. -/
def checks (h : Health) (now : Nat) : Table Check :=
  h.added.entries.foldl (fun t (name, check) => t.put name check)
    ((Table.empty.put "receivers" (h.receiversCheck now)).put "item_processing" (h.itemsCheck now))

def isHealthy (h : Health) (now : Nat) : Bool :=
  (h.checks now).values.all fun check => check.status == good

/-! ### Pages -/

inductive Page where
  | health
  | metrics
  | ready
  | live
  | root
  deriving Repr, DecidableEq

/-- The page that a request names; what follows a question mark does not matter. -/
def Page.ofTarget? (target : String) : Option Page :=
  match String.ofList (target.toList.takeWhile (· != '?')) with
  | "/health" => some .health
  | "/health/" => some .health
  | "/metrics" => some .metrics
  | "/metrics/" => some .metrics
  | "/ready" => some .ready
  | "/ready/" => some .ready
  | "/live" => some .live
  | "/live/" => some .live
  | "/" => some .root
  | "" => some .root
  | _ => none

/-- The body of a reply. -/
inductive Body where
  | json (value : Json)
  | text (s : String)
  | empty
  deriving Repr

/-- A reply: its status, its body, and the origin that may read it. -/
structure Reply where
  status : Nat
  body : Body
  allowedOrigin : Option String
  deriving Repr

def Reply.contentType (r : Reply) : Option String :=
  match r.body with
  | .json _ => some "application/json"
  | .text _ => some "text/plain; charset=utf-8"
  | .empty => none

def Check.toJson (c : Check) : Json :=
  .ofFields [
    ("status", .string c.status),
    ("message", .ofText? c.message),
    ("last_check", .ofNat c.checkedAt)]

/-- The verdict with all checks. -/
def statusJson (h : Health) (m : Metrics) (now : Nat) : Json :=
  .ofFields [
    ("status", .string (if h.isHealthy now then good else "degraded")),
    ("timestamp", .ofNat now),
    ("runtime_id", .string h.intakeId),
    ("uptime_seconds", .ofNat (now - m.startedAt)),
    ("checks", .ofFields ((h.checks now).entries.map fun (name, check) => (name, check.toJson)))]

/-- What each page is for. -/
def pageTexts : List (String × String) := [
  ("/health", "Overall health status with detailed checks"),
  ("/metrics", "Item, polling and HTTP counters"),
  ("/ready", "Readiness probe, true once receivers run"),
  ("/live", "Liveness probe")]

/-- The status and the content of a page. -/
def page (h : Health) (m : Metrics) (now : Nat) : Page → Nat × Json
  | .health => (if h.isHealthy now then 200 else 503, h.statusJson m now)
  | .metrics => (200, m.toJson now)
  | .ready =>
    (if h.receiversRunning then 200 else 503,
      .ofFields [("ready", .bool h.receiversRunning), ("timestamp", .ofNat now)])
  | .live => (200, .ofFields [("alive", .bool true), ("timestamp", .ofNat now)])
  | .root =>
    (200, .ofFields [("endpoints", .ofFields (pageTexts.map fun (p, text) => (p, .string text)))])

/-- The reply to a request.  A request from another origin that asks for permission first is refused,
since no method needs it; other failures carry no permission. -/
def reply (h : Health) (m : Metrics) (now : Nat) (method target : String)
    (origin : Option String) : Reply :=
  if origin.isSome ∧ method = "OPTIONS" then
    ⟨403, .text "CORS request forbidden: request-method not allowed", none⟩
  else
    match Page.ofTarget? target with
    | none => ⟨404, .empty, none⟩
    | some p =>
      if method = "GET" then
        let (status, content) := h.page m now p
        ⟨status, .json content, origin⟩
      else ⟨405, .text "HTTP method not allowed", none⟩

end Health

end Intake
