/-
Module: Intake.Log.Line
Purpose: Log messages and the lines that show them in each format.
Main exports: Log.Message, Log.Setup, Log.Setup.ofEnvironment, Log.Message.line

The compact format has one line with colours, the pretty format two lines and a blank one, and the JSON
format one object a line with the fields in the order of their writing.
-/
import Intake.Json.Writer
import Intake.Log.Filter

namespace Intake

namespace Log

/-- A message of the command line.  `place` is the number that detailed lines show for it, and `details`
are named values beside the text. -/
structure Message where
  level : Level
  place : Nat
  text : String
  details : List (String × Json)
  deriving Repr

/-- What is shown, and how. -/
structure Setup where
  filter : Filter
  format : Format
  deriving Repr, DecidableEq

/-- The variable that replaces the whole filter. -/
def filterVariable : String := "RUST_LOG"

/-- The setup that the environment asks for.  Each step of verbosity shows more, in the pretty format. -/
def Setup.ofEnvironment (environment : Table String) (verbosity : Nat) : Setup :=
  let (level, format) : Level × Format :=
    match verbosity with
    | 0 =>
      (.ofName ((environment.find? "LOG_LEVEL").getD "INFO"),
        .ofName ((environment.find? "LOG_FORMAT").getD "json"))
    | 1 => (.debug, .pretty)
    | _ => (.trace, .pretty)
  ⟨((environment.find? filterVariable).map Filter.ofText).getD (.ofLevel level), format⟩

/-- The part of the program that messages of the command line come from. -/
def target : String := "msgrelay"

/-! ### Colours -/

/-- Switches styles of the terminal on, by their numbers. -/
def styleOn (numbers : String) : String := "\x1b[" ++ numbers ++ "m"

/-- Switches all styles off. -/
def styleOff : String := styleOn "0"

def styled (numbers text : String) : String := styleOn numbers ++ text ++ styleOff

def dimmed : String := "2"
def italic : String := "3"
def dimmedItalic : String := "2;3"

def Level.colour : Level → String
  | .error => "31"
  | .warn => "33"
  | .info => "32"
  | .debug => "34"
  | .trace => "35"

def bold (colour : String) : String := "1;" ++ colour

/-- The name of a level, five characters wide. -/
def Level.column (level : Level) : String :=
  if level.name.length < 5 then " " ++ level.name else level.name

/-! ### Lines -/

/-- A value as text: strings stand as they are. -/
def valueText : Json → String
  | .string s => s
  | value => value.text

/-- An object with its fields in the given order. -/
def objectText (fields : List (String × String)) : String :=
  let field : String × String → String := fun (name, value) =>
    String.ofList (Json.quoted name) ++ ":" ++ value
  "\x7b" ++ ",".intercalate (fields.map field) ++ "\x7d"

namespace Message

def jsonLine (m : Message) (time : String) : String :=
  let quoted (s : String) : String := (Json.string s).text
  let fields := ("message", quoted m.text) :: m.details.map fun (name, value) => (name, value.text)
  objectText [("timestamp", quoted time), ("level", quoted m.level.name),
    ("fields", objectText fields), ("target", quoted target)] ++ "\n"

def compactLine (m : Message) (time : String) : String :=
  let detail : String × Json → String := fun (name, value) =>
    " " ++ styled italic name ++ styled dimmed "=" ++ valueText value
  styled dimmed time ++ " " ++ styled m.level.colour m.level.column ++ " " ++ m.text ++
    String.join (m.details.map detail) ++ "\n"

/-- The place that detailed lines show. -/
def placeText (m : Message) : String := "src/main.rs:" ++ toString m.place

def prettyLines (m : Message) (time : String) : String :=
  let colour := styleOn m.level.colour
  let strong (text : String) : String := styled (bold m.level.colour) text ++ colour
  let detail : String × Json → String := fun (name, value) =>
    ", " ++ strong name ++ ": " ++ valueText value
  "  " ++ styled dimmed time ++ " " ++ styled m.level.colour m.level.column ++ " " ++
    strong target ++ ": " ++ colour ++ m.text ++ String.join (m.details.map detail) ++ styleOff ++
    "\n    " ++ styled dimmedItalic "at" ++ " " ++ m.placeText ++ "\n\n"

/-- The line of a message, or nothing if the filter holds it back. -/
def line (m : Message) (setup : Setup) (time : String) : String :=
  if setup.filter.shows target m.level then
    match setup.format with
    | .json => m.jsonLine time
    | .compact => m.compactLine time
    | .pretty => m.prettyLines time
  else ""

end Message

end Log

end Intake
