/-
Module: Intake.Command.Basic
Purpose: One execution of the command line: its output, its exit code, and the files that it leaves.
Main exports: Command.Output, Command.Progress, Command.answer, Command.execute
-/
import Intake.Command.Arguments
import Intake.Config.Document
import Intake.Log.Line
import Intake.Service.Assembly
import Intake.Service.Clearing

namespace Intake

namespace Command

/-- A piece of output: a log message, or a text that no filter holds back. -/
inductive Output where
  | message (m : Log.Message)
  | text (s : String)
  deriving Repr

/-- The exit codes: success, a command that failed, arguments that cannot be right, and an execution that
was aborted. -/
def succeeded : Nat := 0
def failed : Nat := 1
def misused : Nat := 2
def aborted : Nat := 101

def programName : String := "msgrelay"
def programVersion : String := "0.1.0"

/-- A message with a place number of its own, which only detailed lines show. -/
def info (place : Nat) (text : String) (details : List (String × Json)) : Output :=
  .message ⟨.info, place, text, details⟩

def error (place : Nat) (text : String) : Output := .message ⟨.error, place, text, []⟩

/-! ### Configuration -/

/-- Where a configuration is looked for if no path is given, the first place first. -/
def standardPaths : List String := ["msgrelay.toml", "config/msgrelay.toml"]

/-- Whether there is anything where a read came to this: a folder is there, though it cannot be read. -/
def isThere : Except FileError Bytes → Bool
  | .ok _ => true
  | .error .isDirectory => true
  | .error _ => false

/-- The path of the configuration: the given one, whatever is there, or the first standard path with
something there. -/
def configPath? (read : String → Except FileError Bytes) (given : Option String) : Option String :=
  given.or (standardPaths.find? fun path => isThere (read path))

/-- The configuration that a read brings. -/
def loadConfig : Except FileError Bytes → Except Config.Error Config
  | .ok body => Config.load (some body)
  | .error e => .error (.unreadable e.message)

def startMessage : Output := info 69 ("Starting " ++ programName ++ " v" ++ programVersion) []

/-- The message with the path; it comes from two places. -/
def loadingMessage (given : Option String) (path : String) : Output :=
  info (if given.isSome then 94 else 101) ("Loading configuration from: " ++ path) []

def missingMessage : Output :=
  error 106 "No configuration file found. Provide one with -c/--config or create msgrelay.toml"

/-! ### Actions -/

/-- How far an execution comes on its own: to its end, with the output in order and an exit code, or to
receivers that run until they are told to end. -/
inductive Progress where
  | ended (output : List Output) (exitCode : Nat)
  | serving (output : List Output) (config : Config) (assembly : Assembly)

/-- The message behind every action that succeeded. -/
def lastMessage : Output := info 89 "Application shutdown complete" []

/-- Checks a configuration, and shows it if that is asked for. -/
def check (output : List Output) (config : Config) (shown : Bool) : Progress :=
  let text := Output.text ("Current configuration:\n" ++ config.text ++ "\n")
  .ended
    (output ++ (if shown then [text] else []) ++
      [info 258 "Configuration validation complete" [], lastMessage]) succeeded

/-- The end by a failure of the receivers. -/
def refused (output : List Output) : Assembly.Failure → Progress
  | .refused cause => .ended (output ++ [error 85 ("Command failed: " ++ cause.message)]) failed
  | .outOfRange => .ended output aborted

/-- Brings the receivers up. -/
def serve (output : List Output) (config : Config) (now : Instant) : Progress :=
  let output := output ++ [info 174 "Runtime starting" [("runtime_id", .string config.identity.id)]]
  match config.assemble with
  | .error failure => refused output failure
  | .ok assembly =>
    let idle : Output := .message
      ⟨.warn, 200, "No receivers configured; only health endpoints will be served", []⟩
    let count := assembly.receiverCount
    let output := if count = 0 then output ++ [idle] else output
    match assembly.start now with
    | .error failure => refused output failure
    | .ok started =>
      .serving (output ++ [info 213 "Runtime is running" [("receivers", .ofNat count)]]) config started

/-- Loads the configuration and performs the action. -/
def perform (read : String → Except FileError Bytes) (now : Instant) (arguments : Arguments) :
    Progress :=
  match configPath? read arguments.configPath with
  | none => .ended [startMessage, missingMessage] failed
  | some path =>
    let output := [startMessage, loadingMessage arguments.configPath path]
    match loadConfig (read path) with
    | .error cause =>
      let message := "Failed to load configuration: " ++ (StartError.config cause).message
      .ended (output ++ [error 74 message]) failed
    | .ok config =>
      match arguments.action with
      | .check shown => check output config shown
      | .run => serve output config now

/-- Answers a request, with a way to read files by their paths. -/
def answer (read : String → Except FileError Bytes) (now : Instant) : Request → Progress
  | .perform arguments => perform read now arguments
  | .version => .ended [.text (programName ++ " " ++ programVersion ++ "\n")] succeeded
  | .help => .ended [] succeeded
  | .misuse => .ended [] misused

/-! ### Executions that end -/

/-- What an execution leaves. -/
structure Outcome where
  exitCode : Nat
  output : List Output
  files : FileTree

/-- The messages of receivers that are told to end. -/
def endMessages : List Output :=
  [info 220 "Received SIGTERM, shutting down gracefully..." [], lastMessage]

/-- The files once the receivers have worked until nothing can be claimed. -/
def clearAll (config : Config) (assembly : Assembly) (files : FileTree) : FileTree :=
  assembly.pickups.foldl (Pickup.clearIn (config.agent "").handle) files

/-- One execution in a tree of files.  Receivers are told to end when nothing can be claimed any more. -/
def execute (files : FileTree) (now : Instant) (request : Request) : Outcome :=
  match answer files.read now request with
  | .ended output exitCode => ⟨exitCode, output, files⟩
  | .serving output config assembly =>
    ⟨succeeded, output ++ endMessages, clearAll config assembly files⟩

/-! ### Output -/

/-- How loud the log is for a request. -/
def Request.verbosity : Request → Nat
  | .perform arguments => arguments.verbosity
  | _ => 0

/-- The text of a piece of output. -/
def Output.render (setup : Log.Setup) (time : String) : Output → String
  | .message m => m.line setup time
  | .text s => s

/-- All output, with the same time on each log line. -/
def Outcome.text (outcome : Outcome) (setup : Log.Setup) (time : String) : String :=
  String.join (outcome.output.map (·.render setup time))

end Command

end Intake
