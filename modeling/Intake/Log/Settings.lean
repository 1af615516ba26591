/-
Module: Intake.Log.Settings
Purpose: The names of log levels and log formats.
Main exports: Log.Level, Log.Level.ofName, Log.Format, Log.Format.ofName
-/

namespace Intake

namespace Log

/-- How important a message is, most important first. -/
inductive Level where
  | error
  | warn
  | info
  | debug
  | trace
  deriving Repr, DecidableEq

def Level.name : Level → String
  | .error => "ERROR"
  | .warn => "WARN"
  | .info => "INFO"
  | .debug => "DEBUG"
  | .trace => "TRACE"

/-- A larger rank is more detailed. -/
def Level.rank : Level → Nat
  | .error => 1
  | .warn => 2
  | .info => 3
  | .debug => 4
  | .trace => 5

/-- The level of a name in any case; an unknown name counts as `info`.  Characters outside ASCII matter
only where the answer is `info` anyway. -/
def Level.ofName (name : String) : Level :=
  match String.ofList (name.toList.map Char.toUpper) with
  | "ERROR" => .error
  | "WARN" => .warn
  | "DEBUG" => .debug
  | "TRACE" => .trace
  | _ => .info

/-- How messages are laid out. -/
inductive Format where
  | json
  | pretty
  | compact
  deriving Repr, DecidableEq

def Format.name : Format → String
  | .json => "json"
  | .pretty => "pretty"
  | .compact => "compact"

/-- The format of a name in any case; an unknown name counts as `json`.  No character outside ASCII
becomes a letter of these names in lower case. -/
def Format.ofName (name : String) : Format :=
  match String.ofList (name.toList.map Char.toLower) with
  | "pretty" => .pretty
  | "compact" => .compact
  | _ => .json

end Log

end Intake
