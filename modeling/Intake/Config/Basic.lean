/-
Module: Intake.Config.Basic
Purpose: The configuration of an intake, its validity, and the settings that it gives to receivers.
Main exports: Config, Config.Error, Config.validate, Config.pollSettings, Config.batchSettings,
  Config.httpSettings?, Config.pickupsBy
-/
import Intake.Number.Decimal
import Intake.Text.Blank
import Intake.Receiver.Settings

namespace Intake

namespace Config

/-- Who the intake is, and the pipeline that its agent runs. -/
structure Identity where
  id : String
  pipeline : String
  deriving Repr, DecidableEq

/-- Bounds of the intervals between polls in seconds, and the wait in milliseconds when nothing is
scheduled. -/
structure Polling where
  minSecs : Binary64
  maxSecs : Binary64
  idleWaitMs : Nat
  deriving Repr, DecidableEq

def Polling.standard : Polling := ⟨.ofNat 5, .ofNat 300, 1000⟩

/-- The sleep of batch receivers in milliseconds. -/
structure Batch where
  pollingIntervalMs : Nat
  deriving Repr, DecidableEq

def Batch.standard : Batch := ⟨1000⟩

/-- The HTTP receiver. -/
structure Http where
  bindAddress : String
  maxConcurrentAccepts : Nat
  submitPath : String
  shutdownGraceMs : Nat
  deriving Repr, DecidableEq

def standardMaxAccepts : Nat := 16
def standardSubmitPath : String := "/messages"
def standardGraceMs : Nat := 5000

/-- How a directory is polled: by the shared scheduled receiver, or by a batch receiver of its own. -/
inductive PickupMode where
  | scheduled
  | batch
  deriving Repr, DecidableEq

def PickupMode.name : PickupMode → String
  | .scheduled => "scheduled"
  | .batch => "batch"

/-- A directory that is polled for files, with bounds of its own where it has some. -/
structure Pickup where
  key : String
  directory : String
  mode : PickupMode
  minSecs : Option Binary64
  maxSecs : Option Binary64
  deriving Repr, DecidableEq

/-- The port of the health pages. -/
structure Health where
  port : Nat
  deriving Repr, DecidableEq

def Health.standard : Health := ⟨8080⟩

/-- The name of the pipeline where none is given. -/
def standardPipeline : String := "receive"

/-- Why there is no configuration. -/
inductive Error where
  | unreadable (reason : String)
  | malformed
  | invalidId (reason : String)
  | invalid (reason : String)
  deriving Repr, DecidableEq

/-- The text of an error.  Where the document is malformed, the place and the reason are left open. -/
def Error.message : Error → String
  | .unreadable reason => "Failed to read config file: " ++ reason
  | .malformed => "Failed to parse TOML"
  | .invalidId reason => "Invalid runtime ID format: " ++ reason
  | .invalid reason => "Invalid configuration: " ++ reason

end Config

/-- The configuration of an intake. -/
structure Config where
  identity : Config.Identity
  polling : Config.Polling
  batch : Config.Batch
  http : Option Config.Http
  pickups : List Config.Pickup
  health : Config.Health
  deriving Repr, DecidableEq

namespace Config

/-! ### Validity -/

def isIdChar (c : Char) : Bool := c.isAlphanum || c == '.' || c == '_' || c == '-'

def checkId (id : String) : Except Error Unit :=
  if id.toList ≠ [] ∧ id.toList.all isIdChar then .ok ()
  else .error (.invalidId ("Runtime ID '" ++ id ++ "' must match pattern [a-zA-Z0-9._-]+"))

/-- An interval is a finite number of seconds that is not negative. -/
def checkInterval (owner : String) (seconds : Binary64) : Except Error Unit :=
  if !seconds.isFinite || Binary64.lt seconds .zero then
    .error (.invalid
      (owner ++ ": interval " ++ seconds.plainText ++ " must be a non-negative number of seconds"))
  else .ok ()

def checkOptionalInterval (owner : String) : Option Binary64 → Except Error Unit
  | none => .ok ()
  | some seconds => checkInterval owner seconds

/-- Checks a directory after others whose keys are `taken`. -/
def checkPickup (taken : List String) (p : Pickup) : Except Error Unit := do
  if trim p.key = "" then throw (.invalid "pickup target key must not be empty")
  if p.key ∈ taken then throw (.invalid ("duplicate pickup target key '" ++ p.key ++ "'"))
  checkOptionalInterval p.key p.minSecs
  checkOptionalInterval p.key p.maxSecs

def checkPickups (taken : List String) : List Pickup → Except Error Unit
  | [] => .ok ()
  | p :: rest => do
    checkPickup taken p
    checkPickups (p.key :: taken) rest

/-- The first violation in a fixed order: identifier, directories, default intervals, batch interval,
number of accepts. -/
def validate (c : Config) : Except Error Unit := do
  checkId c.identity.id
  checkPickups [] c.pickups
  checkInterval "[scheduler]" c.polling.minSecs
  checkInterval "[scheduler]" c.polling.maxSecs
  if c.batch.pollingIntervalMs = 0 then
    throw (.invalid "[batch].polling_interval_ms must be greater than zero")
  match c.http with
  | some http =>
    if http.maxConcurrentAccepts = 0 then
      throw (.invalid "[http].max_concurrent_accepts must be at least 1")
  | none => pure ()

/-! ### Settings of receivers -/

def pollSettings (c : Config) : Settings :=
  .ofList [
    ("min_interval_secs", c.polling.minSecs.plainText),
    ("max_interval_secs", c.polling.maxSecs.plainText),
    ("idle_wait_ms", toString c.polling.idleWaitMs)]

def batchSettings (c : Config) : Settings :=
  .ofList [("polling_interval_ms", toString c.batch.pollingIntervalMs)]

def Http.settings (h : Http) : Settings :=
  .ofList [
    ("bind_address", h.bindAddress),
    ("max_concurrent_accepts", toString h.maxConcurrentAccepts),
    ("submit_path", h.submitPath),
    ("shutdown_grace_ms", toString h.shutdownGraceMs)]

def httpSettings? (c : Config) : Option Settings := c.http.map Http.settings

/-- The directories polled in one mode, in order. -/
def pickupsBy (c : Config) (mode : PickupMode) : List Pickup := c.pickups.filter (·.mode = mode)

end Config

end Intake
