/-
Module: Intake.Receiver.Settings
Purpose: The settings of the three kinds of receivers, and changing them by texts.
Main exports: Settings, HttpSettings, PollSettings, BatchSettings, HttpSettings.configure,
  PollSettings.configure, BatchSettings.configure

A change is a table of texts.  Names that a receiver does not know have no effect, and a name that is
missing leaves its setting as it is.
-/
import Intake.Text.Blank
import Intake.Number.Decimal
import Intake.Http.Address
import Intake.Receiver.Basic

namespace Intake

/-- Texts by the names of the settings. -/
abbrev Settings := Table String

namespace Settings

/-- A setting read as a natural number, with white space around it ignored. -/
def natural (settings : Settings) (key : String) (limit current : Nat) : Except ReceiverError Nat :=
  match settings.find? key with
  | none => .ok current
  | some text =>
    match readNatural limit (trimChars text.toList) with
    | .ok n => .ok n
    | .error e => .error (.invalidSetting key e.message)

/-- A setting read as a double, with white space around it ignored. -/
def double (settings : Settings) (key : String) (current : Binary64) :
    Except ReceiverError Binary64 :=
  match settings.find? key with
  | none => .ok current
  | some text =>
    match Binary64.read (trimChars text.toList) with
    | .ok x => .ok x
    | .error e => .error (.invalidSetting key e.message)

end Settings

/-- The milliseconds of a span as far as 64 binary digits hold them. -/
def Duration.shortMillis (d : Duration) : Nat := d.wholeMillis % (max64 + 1)

/-! ### HTTP -/

/-- Where the HTTP receiver listens, how many accepts may be pending, which path takes messages, and how
long connections may go on after a stop. -/
structure HttpSettings where
  bindAddress : String
  maxAccepts : Nat
  submitPath : String
  grace : Duration
  deriving Repr, DecidableEq

namespace HttpSettings

def standard : HttpSettings := ⟨"127.0.0.1:8090", 16, "/messages", .ofSecs 5⟩

/-- An address is taken as it is written. -/
def readAddress (settings : Settings) (current : String) : Except ReceiverError String :=
  match settings.find? "bind_address" with
  | none => .ok current
  | some address =>
    if Address.isSocketAddress address then .ok address
    else .error (.invalidSetting "bind_address" "invalid socket address syntax")

def readMaxAccepts (settings : Settings) (current : Nat) : Except ReceiverError Nat :=
  match settings.natural "max_concurrent_accepts" max64 current with
  | .error e => .error e
  | .ok 0 => .error (.invalidSetting "max_concurrent_accepts" "must be at least 1")
  | .ok n => .ok n

def readSubmitPath (settings : Settings) (current : String) : Except ReceiverError String :=
  match settings.find? "submit_path" with
  | none => .ok current
  | some path =>
    if path.toList.head? = some '/' then .ok path
    else .error (.invalidSetting "submit_path" "must start with '/'")

/-- The settings after a change; the first setting that is refused decides the error. -/
def configure (current : HttpSettings) (settings : Settings) : Except ReceiverError HttpSettings := do
  let bindAddress ← readAddress settings current.bindAddress
  let maxAccepts ← readMaxAccepts settings current.maxAccepts
  let submitPath ← readSubmitPath settings current.submitPath
  let grace ← settings.natural "shutdown_grace_ms" max64 current.grace.shortMillis
  return ⟨bindAddress, maxAccepts, submitPath, .ofMillis grace⟩

end HttpSettings

/-! ### Scheduled polling -/

/-- The bounds of the intervals of targets without bounds of their own, and how long the loop waits
when nothing is scheduled. -/
structure PollSettings where
  least : Duration
  greatest : Duration
  idleWait : Duration
  deriving Repr, DecidableEq

/-- How a change of the polling settings fails: a setting is refused, or a number of seconds is beyond
every span of time, which no check prevents. -/
inductive PollSettings.Failure where
  | refused (cause : ReceiverError)
  | outOfRange
  deriving Repr, DecidableEq

namespace PollSettings

def standard : PollSettings := ⟨.ofSecs 5, .ofSecs 300, .ofMillis 1000⟩

/-- Seconds that are finite and not negative. -/
def checkSeconds (key : String) (seconds : Binary64) : Except ReceiverError Unit :=
  if !seconds.isFinite || Binary64.lt seconds .zero then
    .error (.invalidSetting key "must be a non-negative number of seconds")
  else .ok ()

/-- The numbers that a change asks for: both bounds in seconds, and the wait in milliseconds. -/
def readNumbers (current : PollSettings) (settings : Settings) :
    Except ReceiverError (Binary64 × Binary64 × Nat) := do
  let least ← settings.double "min_interval_secs" current.least.toSeconds
  let greatest ← settings.double "max_interval_secs" current.greatest.toSeconds
  let idle ← settings.natural "idle_wait_ms" max64 current.idleWait.shortMillis
  checkSeconds "min_interval_secs" least
  checkSeconds "max_interval_secs" greatest
  return (least, greatest, idle)

/-- The settings after a change, and how it failed if it did.  Bounds pass through doubles even where
they are not changed.  They are stored one after the other, so that a failure of the second leaves the
first one changed. -/
def configure (current : PollSettings) (settings : Settings) : PollSettings × Except Failure Unit :=
  match readNumbers current settings with
  | .error cause => (current, .error (.refused cause))
  | .ok (least, greatest, idle) =>
    match Duration.ofSeconds? least with
    | none => (current, .error .outOfRange)
    | some least =>
      match Duration.ofSeconds? greatest with
      | none => ({ current with least }, .error .outOfRange)
      | some greatest => (⟨least, greatest, .ofMillis (max idle 1)⟩, .ok ())

end PollSettings

/-! ### Batch polling -/

/-- How long a batch receiver sleeps after a poll that found nothing. -/
structure BatchSettings where
  interval : Duration
  deriving Repr, DecidableEq

namespace BatchSettings

def standard : BatchSettings := ⟨.ofMillis 1000⟩

def configure (current : BatchSettings) (settings : Settings) : Except ReceiverError BatchSettings :=
  match settings.natural "polling_interval_ms" max64 current.interval.shortMillis with
  | .error e => .error e
  | .ok 0 => .error (.invalidSetting "polling_interval_ms" "must be greater than zero")
  | .ok millis => .ok ⟨.ofMillis millis⟩

end BatchSettings

end Intake
