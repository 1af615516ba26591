/-
Module: Intake.Command.Arguments
Purpose: What the arguments of the command line ask for.
Main exports: Command.Action, Command.Arguments, Command.Request, Command.Request.ofArguments

Options stand in front of the action.  The first argument that cannot be right decides, and so does the
first that asks for the version or for help.
-/

namespace Intake

namespace Command

/-- What is to be done with the configuration. -/
inductive Action where
  | run
  | check (shown : Bool)
  deriving Repr, DecidableEq

/-- The options and the action. -/
structure Arguments where
  configPath : Option String
  verbosity : Nat
  action : Action
  deriving Repr, DecidableEq

/-- What the arguments come to. -/
inductive Request where
  | perform (arguments : Arguments)
  | version
  | help
  | misuse
  deriving Repr, DecidableEq

/-- The options read so far. -/
structure Options where
  configPath : Option String
  verbosity : Nat
  deriving Repr, DecidableEq

namespace Options

def none : Options := ⟨.none, 0⟩

/-- The options with a path, which may be given once and is not empty. -/
def withPath? (o : Options) (path : String) : Option Options :=
  if o.configPath.isSome || path.isEmpty then Option.none else some { o with configPath := some path }

def louder (o : Options) : Options := { o with verbosity := o.verbosity + 1 }

end Options

/-- Whether an argument can be the value of the option in front of it: only a lone hyphen may start with
one. -/
def isValue (argument : String) : Bool :=
  argument == "-" || argument.toList.head? != some '-'

/-- A group of short options, or what it leads to.  An option with a value takes the rest of the group, or
else the next argument. -/
inductive Group where
  | done (options : Options)
  | awaitsPath (options : Options)
  | ends (request : Request)
  deriving Repr, DecidableEq

/-- Reads a group of short options. -/
def readGroup (o : Options) : List Char → Group
  | [] => .done o
  | 'v' :: rest => readGroup o.louder rest
  | 'V' :: _ => .ends .version
  | 'h' :: _ => .ends .help
  | ['c'] => .awaitsPath o
  | 'c' :: rest =>
    let path := if rest.head? = some '=' then rest.drop 1 else rest
    match o.withPath? (String.ofList path) with
    | some o => .done o
    | none => .ends .misuse
  | _ => .ends .misuse

/-- Reads an argument that starts with a hyphen. -/
def readOption (o : Options) (argument : List Char) : Group :=
  match argument with
  | ['-', '-'] => .ends .misuse
  | '-' :: '-' :: name =>
    let value := (name.dropWhile (· != '=')).drop 1
    match String.ofList (name.takeWhile (· != '=')), name.contains '=' with
    | "config", false => .awaitsPath o
    | "config", true =>
      match o.withPath? (String.ofList value) with
      | some o => .done o
      | none => .ends .misuse
    | "verbose", false => .done o.louder
    | "version", false => .ends .version
    | "help", false => .ends .help
    | _, _ => .ends .misuse
  | '-' :: c :: rest => readGroup o (c :: rest)
  | _ => .ends .misuse

/-- The arguments behind the action `run`, which takes none. -/
def readRun : List String → Option Request
  | [] => none
  | ["--"] => none
  | "-h" :: _ => some .help
  | "--help" :: _ => some .help
  | _ => some .misuse

/-- The arguments behind the action `config`: whether the configuration is shown, or another request. -/
def readCheck (shown : Bool) : List String → Except Request Bool
  | [] => .ok shown
  | ["--"] => .ok shown
  | "--show" :: rest => if shown then .error .misuse else readCheck true rest
  | "-h" :: _ => .error .help
  | "--help" :: _ => .error .help
  | _ => .error .misuse

/-- Help may be asked for an action by its name. -/
def readHelp : List String → Request
  | [] => .help
  | ["run"] => .help
  | ["config"] => .help
  | ["help"] => .help
  | _ => .misuse

/-- Reads arguments behind options. -/
def readFrom (o : Options) : List String → Request
  | [] => .misuse
  | "run" :: rest => (readRun rest).getD (.perform ⟨o.configPath, o.verbosity, .run⟩)
  | "config" :: rest =>
    match readCheck false rest with
    | .ok shown => .perform ⟨o.configPath, o.verbosity, .check shown⟩
    | .error request => request
  | "help" :: rest => readHelp rest
  | argument :: rest =>
    match readOption o argument.toList with
    | .done o => readFrom o rest
    | .ends request => request
    | .awaitsPath o =>
      match rest with
      | [] => .misuse
      | path :: rest =>
        if isValue path then
          match o.withPath? path with
          | some o => readFrom o rest
          | none => .misuse
        else .misuse

def Request.ofArguments (arguments : List String) : Request := readFrom .none arguments

example : Request.ofArguments ["-vc", "a", "config", "--show"] =
    .perform ⟨some "a", 1, .check true⟩ := by decide +kernel

example : Request.ofArguments ["-c", "run"] = .misuse := by decide +kernel

end Command

end Intake
