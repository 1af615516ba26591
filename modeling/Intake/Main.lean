/-
Module: Intake.Main
Purpose: The command line as a program: reads files, prints, and polls directories until it is ended.
Main exports: main

All decisions are made elsewhere.  Receivers that wait for connections are left to programs that open
sockets.
-/
import Intake.Command.Basic
import Intake.Scheduled.Round
import Std.Time.Format

namespace Intake

namespace Command

/-- The present time. -/
def currentTime : IO Instant := do
  let t ← Std.Time.Timestamp.now
  return ⟨t.toNanosecondsSinceUnixEpoch.toInt⟩

/-- The present time in the form of log lines. -/
def currentTimeText : IO String := do
  let t ← Std.Time.Timestamp.now
  return (Std.Time.DateTime.ofTimestamp t Std.Time.TimeZone.ZoneRules.UTC).format
    "uuuu-MM-dd'T'HH:mm:ss.SSSSSS'Z'"

/-- The variables that matter to the log. -/
def readEnvironment : IO (Table String) := do
  let mut table := Table.empty
  for name in ["LOG_LEVEL", "LOG_FORMAT", Log.filterVariable] do
    if let some value ← IO.getEnv name then
      table := table.put name value
  return table

/-- Reads one file as far as that works. -/
def readFile (path : String) : IO (Except FileError Bytes) := do
  try
    let body ← IO.FS.readBinFile path
    return .ok body.toList
  catch
    | .noFileOrDirectory .. => return .error .notFound
    | .inappropriateType .. => return .error .isDirectory
    | _ => return .error .accessDenied

/-- Reads the files in which a configuration may stand. -/
def readCandidates (request : Request) : IO (String → Except FileError Bytes) := do
  let paths :=
    match request with
    | .perform arguments => arguments.configPath.elim standardPaths fun path => [path]
    | _ => []
  let read ← paths.mapM fun path => return (path, ← readFile path)
  return fun path => (Table.lookup? path read).getD (.error .notFound)

/-- Prints output as far as the log setup lets it pass. -/
def printOutput (setup : Log.Setup) (output : List Output) : IO Unit := do
  let time ← currentTimeText
  IO.print (String.join (output.map (·.render setup time)))
  (← IO.getStdout).flush

/-! ### Polling -/

/-- The names in a directory; what is no file is listed as an empty folder. -/
def listDirectory (directory : String) : IO Folder := do
  let mut folder : Folder := .empty
  for entry in ← (← IO.FS.realPath directory).readDir do
    let isFile := (← entry.path.metadata).type == .file
    folder := folder.put (.ofText entry.fileName) (if isFile then .file [] else .folder .empty)
  return folder

/-- The body of a claimed file; where it cannot be read, the file gets its own name back. -/
def readClaimed (p : Pickup) (name : FileName) : IO Bytes := do
  let claimed := p.pathOf (Pickup.claimedName name)
  try
    return (← IO.FS.readBinFile claimed).toList
  catch e =>
    IO.FS.rename claimed (p.pathOf name)
    throw e

/-- Claims one file, hands it over and settles it.  A file that cannot be claimed is passed over. -/
def processFile (handle : ItemHandler) (p : Pickup) (name : FileName) : IO Unit := do
  let claimed := Pickup.claimedName name
  try
    IO.FS.rename (p.pathOf name) (p.pathOf claimed)
    let body ← readClaimed p name
    if (handle (p.itemOf name body)).isOk then IO.FS.removeFile (p.pathOf claimed)
    else IO.FS.rename (p.pathOf claimed) (p.pathOf (Pickup.parkedName claimed))
  catch _ => return

/-- Polls a directory once and says whether anything was found; one that cannot be read holds nothing. -/
def pollDirectory (handle : ItemHandler) (p : Pickup) : IO Bool := do
  try
    let names := Pickup.candidates p.limit (← listDirectory p.directory)
    names.forM (processFile handle p)
    return !names.isEmpty
  catch _ => return false

/-- One round of the scheduled directories and of those polled in batches. -/
def pollRound (handle : ItemHandler) (assembly : Assembly) : IO Assembly := do
  let (due, drained) := assembly.scheduled.scheduler.drain (← currentTime)
  let settled ← due.mapM fun d => return (d.key, ← pollDirectory handle d.descriptor)
  let scheduler := Scheduled.settleAll (← currentTime) drained settled
  assembly.batches.forM fun (p, _) => discard (pollDirectory handle p)
  return { assembly with scheduled := { assembly.scheduled with scheduler } }

/-- The longest pause between two rounds in milliseconds. -/
def longestPause : Nat := 60000

/-- The milliseconds up to the next round: until the next directory is due, or for the interval of the
batches where that is shorter. -/
def pauseMillis (assembly : Assembly) (now : Instant) : Nat :=
  let waits :=
    (assembly.scheduled.scheduler.wakeDelay now).toList ++
      assembly.batches.map fun (_, settings) => settings.interval
  let idle := assembly.scheduled.settings.idleWait.wholeMillis
  min longestPause (((waits.map Duration.wholeMillis).min?).getD idle)

/-- Polls until the process is ended from outside. -/
partial def pollForever (handle : ItemHandler) (assembly : Assembly) : IO Unit := do
  let assembly ← pollRound handle assembly
  IO.sleep (pauseMillis assembly (← currentTime)).toUInt32
  pollForever handle assembly

/-- Performs a request to its end. -/
def carryOut (setup : Log.Setup) (request : Request) : IO UInt32 := do
  match answer (← readCandidates request) (← currentTime) request with
  | .ended output exitCode =>
    printOutput setup output
    return UInt32.ofNat exitCode
  | .serving output config assembly =>
    printOutput setup output
    pollForever (config.agent "").handle assembly
    return UInt32.ofNat succeeded

end Command

end Intake

def main (arguments : List String) : IO UInt32 := do
  let request := Intake.Command.Request.ofArguments arguments
  let environment ← Intake.Command.readEnvironment
  Intake.Command.carryOut (.ofEnvironment environment request.verbosity) request
