/-
Module: Intake.Receiver.Rules
Purpose: What may be wrong with the settings of a change, in the order in which a receiver looks, and the
  settings that a change asks for.
Main exports: Rule, Settings.firstObjection?, Settings.Agree, Settings.asked, HttpSettings.rules,
  HttpSettings.updated, PollSettings.rules, PollSettings.updated, BatchSettings.rules, BatchSettings.updated

A rule sees nothing but the text of its own setting, and never the current value.  So the answer to a change
is a matter of its texts: the first rule that objects decides it.
-/
import Intake.Receiver.Settings

namespace Intake

/-- A demand on one setting: its name, and what is wrong with a text for it. -/
structure Rule where
  name : String
  objection? : String → Option String

namespace Settings

/-- What a rule says about a change, with the name of its setting.  A setting that is missing is not objected
to. -/
def objection? (settings : Settings) (rule : Rule) : Option (String × String) :=
  ((settings.find? rule.name).bind rule.objection?).map (rule.name, ·)

def firstObjection? (settings : Settings) (rules : List Rule) : Option (String × String) :=
  rules.findSome? settings.objection?

/-- Two changes that differ at most in settings for which there is no rule. -/
def Agree (settings other : Settings) (rules : List Rule) : Prop :=
  ∀ rule ∈ rules, settings.find? rule.name = other.find? rule.name

/-- The value that a change asks for, which is the current one where the setting is missing. -/
def asked (settings : Settings) (key : String) (read? : String → Option α) (current : α) : α :=
  ((settings.find? key).bind read?).getD current

/-! ### Texts of numbers

All settings are texts.  Numbers are read from them with the white space around them left out. -/

/-- A natural number with white space around it. -/
def naturalOf (text : String) : Except IntegerError Nat := readNatural max64 (trimChars text.toList)

/-- A number in double precision with white space around it. -/
def doubleOf (text : String) : Except Binary64.ReadError Binary64 := Binary64.read (trimChars text.toList)

def natural? (text : String) : Option Nat := (naturalOf text).toOption

def millis? (text : String) : Option Duration := (natural? text).map .ofMillis

def double? (text : String) : Option Binary64 := (doubleOf text).toOption

def span? (text : String) : Option Duration := (double? text).bind Duration.ofSeconds?

/-- Whether a change asks for `2 ^ 64` seconds or more. -/
def isBeyond (settings : Settings) (key : String) : Bool :=
  ((settings.find? key).bind double?).any (Binary64.le (.ofNat Duration.secondsLimit))

end Settings

namespace Rule

open Settings

/-- A text that is taken as it is written. -/
def text (name : String) (accepts : String → Bool) (reason : String) : Rule where
  name
  objection? text := if accepts text then none else some reason

/-- A text that has to be readable. -/
def readable (name : String) (read : String → Except ε α) (message : ε → String) : Rule where
  name
  objection? text :=
    match read text with
    | .ok _ => none
    | .error e => some (message e)

def natural (name : String) : Rule := readable name naturalOf IntegerError.message

def double (name : String) : Rule := readable name doubleOf Binary64.ReadError.message

def positive (name reason : String) : Rule where
  name
  objection? text :=
    match naturalOf text with
    | .ok n => if n = 0 then some reason else none
    | .error e => some e.message

/-- Seconds are finite and not negative.  A text that is no number is left to another rule. -/
def seconds (name : String) : Rule where
  name
  objection? text :=
    match doubleOf text with
    | .ok x =>
      if x.isFinite && Binary64.le .zero x then none else some "must be a non-negative number of seconds"
    | .error _ => none

end Rule

open Settings

/-! ### HTTP

The rules stand in the order in which the settings are read. -/

namespace HttpSettings

def rules : List Rule :=
  [.text "bind_address" Address.isSocketAddress "invalid socket address syntax",
    .positive "max_concurrent_accepts" "must be at least 1",
    .text "submit_path" (·.toList.head? == some '/') "must start with '/'",
    .natural "shutdown_grace_ms"]

def updated (current : HttpSettings) (settings : Settings) : HttpSettings where
  bindAddress := settings.asked "bind_address" some current.bindAddress
  maxAccepts := settings.asked "max_concurrent_accepts" natural? current.maxAccepts
  submitPath := settings.asked "submit_path" some current.submitPath
  grace := settings.asked "shutdown_grace_ms" millis? current.grace

end HttpSettings

/-! ### Scheduled polling

There are two passes over the bounds, one in which they are read and one in which they are looked at as
seconds. -/

namespace PollSettings

/-- All numbers are read before the bounds are looked at. -/
def rules : List Rule :=
  [.double "min_interval_secs", .double "max_interval_secs", .natural "idle_wait_ms",
    .seconds "min_interval_secs", .seconds "max_interval_secs"]

/-- The wait is at least a millisecond. -/
def updated (current : PollSettings) (settings : Settings) : PollSettings where
  least := settings.asked "min_interval_secs" span? current.least
  greatest := settings.asked "max_interval_secs" span? current.greatest
  idleWait := settings.asked "idle_wait_ms" (fun text => (natural? text).map fun n => .ofMillis (max n 1))
    current.idleWait

example : Settings.firstObjection? (.ofList [("min_interval_secs", "-1"), ("idle_wait_ms", "soon")]) rules =
    some ("idle_wait_ms", "invalid digit found in string") := by decide +kernel

end PollSettings

/-! ### Batch polling -/

namespace BatchSettings

def rules : List Rule := [.positive "polling_interval_ms" "must be greater than zero"]

def updated (current : BatchSettings) (settings : Settings) : BatchSettings where
  interval := settings.asked "polling_interval_ms" millis? current.interval

end BatchSettings

end Intake
