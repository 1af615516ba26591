/-
Module: Intake.Config.Document
Purpose: Configurations as TOML documents, read and written.
Main exports: Config.ofToml?, Config.read, Config.load, Config.document, Config.text
-/
import Intake.Text.Utf8
import Intake.Toml.Reader
import Intake.Toml.Writer
import Intake.Config.Basic

namespace Intake

namespace Config

/-! ### Reading -/

def Identity.ofToml? (t : Toml) : Option Identity := do
  let r ← t.record?
  return {
    id := ← r.required? 0 "id" Toml.text?
    pipeline := ← r.defaulted? 1 "pipeline" standardPipeline Toml.text? }

def Polling.ofToml? (t : Toml) : Option Polling := do
  let r ← t.record?
  return {
    minSecs := ← r.defaulted? 0 "min_interval_secs" Polling.standard.minSecs Toml.double?
    maxSecs := ← r.defaulted? 1 "max_interval_secs" Polling.standard.maxSecs Toml.double?
    idleWaitMs := ←
      r.defaulted? 2 "idle_wait_ms" Polling.standard.idleWaitMs (Toml.natural? max64) }

def Batch.ofToml? (t : Toml) : Option Batch := do
  let r ← t.record?
  return {
    pollingIntervalMs := ←
      r.defaulted? 0 "polling_interval_ms" Batch.standard.pollingIntervalMs
        (Toml.natural? max64) }

def Http.ofToml? (t : Toml) : Option Http := do
  let r ← t.record?
  return {
    bindAddress := ← r.required? 0 "bind_address" Toml.text?
    maxConcurrentAccepts := ←
      r.defaulted? 1 "max_concurrent_accepts" standardMaxAccepts (Toml.natural? max64)
    submitPath := ← r.defaulted? 2 "submit_path" standardSubmitPath Toml.text?
    shutdownGraceMs := ←
      r.defaulted? 3 "shutdown_grace_ms" standardGraceMs (Toml.natural? max64) }

def PickupMode.ofName? : String → Option PickupMode
  | "scheduled" => some .scheduled
  | "batch" => some .batch
  | _ => none

/-- A mode by its name, which may also stand as the only key of a table, in front of nothing. -/
def PickupMode.ofToml? : Toml → Option PickupMode
  | .string s => ofName? s
  | .table [(name, .table [])] => ofName? name
  | .table [(name, .array [])] => ofName? name
  | _ => none

def Pickup.ofToml? (t : Toml) : Option Pickup := do
  let r ← t.record?
  return {
    key := ← r.required? 0 "key" Toml.text?
    directory := ← r.required? 1 "directory" Toml.text?
    mode := ← r.defaulted? 2 "mode" .scheduled PickupMode.ofToml?
    minSecs := ← r.optional? 3 "min_interval_secs" Toml.double?
    maxSecs := ← r.optional? 4 "max_interval_secs" Toml.double? }

def pickupsOfToml? : Toml → Option (List Pickup)
  | .array items => items.mapM Pickup.ofToml?
  | _ => none

def Health.ofToml? (t : Toml) : Option Health := do
  let r ← t.record?
  return { port := ← r.defaulted? 0 "port" Health.standard.port (Toml.natural? max16) }

/-- The configuration that a document's table describes, not yet validated. -/
def ofToml? (t : Toml) : Option Config := do
  let r ← t.record?
  return {
    identity := ← r.required? 0 "runtime" Identity.ofToml?
    polling := ← r.defaulted? 1 "scheduler" .standard Polling.ofToml?
    batch := ← r.defaulted? 2 "batch" .standard Batch.ofToml?
    http := ← r.optional? 3 "http" Http.ofToml?
    pickups := ← r.defaulted? 4 "pickup" [] pickupsOfToml?
    health := ← r.defaulted? 5 "health" .standard Health.ofToml? }

/-- The valid configuration that a text describes. -/
def read (text : String) : Except Error Config :=
  match (Toml.read? text).bind ofToml? with
  | none => .error .malformed
  | some c => c.validate.map fun _ => c

/-- The reason given for a file that is not there. -/
def missingFile : String := "No such file or directory (os error 2)"

/-- The reason given for a file that is not text. -/
def notText : String := "stream did not contain valid UTF-8"

/-- The configuration in a file with the given content, if there is such a file. -/
def load (content : Option Bytes) : Except Error Config :=
  match content with
  | none => .error (.unreadable missingFile)
  | some bytes =>
    match bytes.text? with
    | none => .error (.unreadable notText)
    | some text => read text

/-! ### Writing -/

/-- A natural number as a value. -/
def natural (n : Nat) : Toml := .integer n

/-- A field that is left out where it has no value. -/
def optionalField (name : String) (value : Option Binary64) : List (String × Toml) :=
  match value with
  | some x => [(name, .float x)]
  | none => []

def Identity.fields (i : Identity) : List (String × Toml) :=
  [("id", .string i.id), ("pipeline", .string i.pipeline)]

def Polling.fields (p : Polling) : List (String × Toml) :=
  [("min_interval_secs", .float p.minSecs), ("max_interval_secs", .float p.maxSecs),
    ("idle_wait_ms", natural p.idleWaitMs)]

def Batch.fields (b : Batch) : List (String × Toml) :=
  [("polling_interval_ms", natural b.pollingIntervalMs)]

def Http.fields (h : Http) : List (String × Toml) :=
  [("bind_address", .string h.bindAddress),
    ("max_concurrent_accepts", natural h.maxConcurrentAccepts),
    ("submit_path", .string h.submitPath), ("shutdown_grace_ms", natural h.shutdownGraceMs)]

def Pickup.fields (p : Pickup) : List (String × Toml) :=
  [("key", .string p.key), ("directory", .string p.directory), ("mode", .string p.mode.name)] ++
    optionalField "min_interval_secs" p.minSecs ++ optionalField "max_interval_secs" p.maxSecs

def Health.fields (h : Health) : List (String × Toml) := [("port", natural h.port)]

def table (name : String) (fields : List (String × Toml)) : Toml.Section := ⟨name, false, fields⟩

/-- The document of a configuration.  A list without directories has no section to stand in, so it is
written in front. -/
def document (c : Config) : Toml.Document where
  values := if c.pickups = [] then [("pickup", .array [])] else []
  sections :=
    [table "runtime" c.identity.fields, table "scheduler" c.polling.fields,
      table "batch" c.batch.fields] ++
    (c.http.toList.map fun h => table "http" h.fields) ++
    (c.pickups.map fun p => ⟨"pickup", true, p.fields⟩) ++
    [table "health" c.health.fields]

/-- The text of a configuration. -/
def text (c : Config) : String := c.document.text

end Config

end Intake
