/-
Module: Intake.Proofs.Config.Shown
Purpose: A configuration that is shown loads back.
Main exports: Config.ofToml?_of_holds, Config.wellFormed_document, Config.shown_config_reads_back

Whatever was left out of the text that was read stands in the text that is shown with its default, apart from bounds
of directories and the HTTP receiver, which are absent in both.
-/
import Mathlib.Data.List.Basic
import Intake.Command.Basic
import Intake.Proofs.Config.Reading
import Intake.Proofs.Toml.Documents

namespace Intake

namespace Config

open Toml (Writable WritableFields IsBare)

/-! ### Sections are read back

Each section is written as a table with its fields, and reading this table gives the section again. -/

theorem natural?_natural {limit n : Nat} (within : n ≤ limit) : (natural n).natural? limit = some n := by
  have bounds : 0 ≤ (n : Int) ∧ (n : Int).toNat ≤ limit := by omega
  rw [natural, Toml.natural?, if_pos bounds, Int.toNat_natCast]

theorem PickupMode.ofToml?_name (m : PickupMode) : PickupMode.ofToml? (.string m.name) = some m := by
  cases m with
  | scheduled => rfl
  | batch => rfl

section Fields

variable {α : Type} {r : Toml.Record} {place : Nat} {name : String} {v : Toml} {read : Toml → Option α}

theorem required?_eq (found : r.field? place name = some v) : r.required? place name read = read v := by
  rw [Toml.Record.required?, found, Option.bind_some]

theorem defaulted?_eq (found : r.field? place name = some v) (standard : α) :
    r.defaulted? place name standard read = read v := by
  rw [Toml.Record.defaulted?, found]

theorem optional?_eq (found : r.field? place name = some v) :
    r.optional? place name read = (read v).map some := by
  simp only [Toml.Record.optional?, found]

/-- A table may leave a field out. -/
theorem optional?_eq_none {fields : List (String × Toml)} (missing : Table.lookup? name fields = none) :
    (Toml.Record.named fields).optional? place name read = some none := by
  have absent : (Toml.Record.named fields).field? place name = none := missing
  simp only [Toml.Record.optional?, absent]

end Fields

theorem Identity.ofToml?_fields (i : Identity) : ofToml? (.table i.fields) = some i := rfl

theorem Polling.ofToml?_fields {p : Polling} (sized : p.Sized) : ofToml? (.table p.fields) = some p := by
  have least : (Toml.Record.named p.fields).field? 0 "min_interval_secs" = some (.float p.minSecs) := rfl
  have greatest : (Toml.Record.named p.fields).field? 1 "max_interval_secs" = some (.float p.maxSecs) := rfl
  have idle : (Toml.Record.named p.fields).field? 2 "idle_wait_ms" = some (natural p.idleWaitMs) := rfl
  simp only [ofToml?, Toml.record?, Option.bind_eq_bind, Option.bind_some, defaulted?_eq least,
    defaulted?_eq greatest, defaulted?_eq idle, Toml.double?, natural?_natural (sized.idle.trans maxSigned64_le)]
  rfl

theorem Batch.ofToml?_fields {b : Batch} (interval : b.pollingIntervalMs ≤ maxSigned64) :
    ofToml? (.table b.fields) = some b := by
  have found : (Toml.Record.named b.fields).field? 0 "polling_interval_ms" = some (natural b.pollingIntervalMs) :=
    rfl
  simp only [ofToml?, Toml.record?, Option.bind_eq_bind, Option.bind_some, defaulted?_eq found,
    natural?_natural (interval.trans maxSigned64_le)]
  rfl

theorem Http.ofToml?_fields {h : Http} (sized : h.Sized) : ofToml? (.table h.fields) = some h := by
  have address : (Toml.Record.named h.fields).field? 0 "bind_address" = some (.string h.bindAddress) := rfl
  have accepts : (Toml.Record.named h.fields).field? 1 "max_concurrent_accepts" =
      some (natural h.maxConcurrentAccepts) := rfl
  have path : (Toml.Record.named h.fields).field? 2 "submit_path" = some (.string h.submitPath) := rfl
  have grace : (Toml.Record.named h.fields).field? 3 "shutdown_grace_ms" = some (natural h.shutdownGraceMs) := rfl
  simp only [ofToml?, Toml.record?, Option.bind_eq_bind, Option.bind_some, required?_eq address,
    defaulted?_eq accepts, defaulted?_eq path, defaulted?_eq grace, Toml.text?,
    natural?_natural (sized.accepts.trans maxSigned64_le), natural?_natural (sized.grace.trans maxSigned64_le)]
  rfl

/-- A field that was left out is left out again. -/
theorem optional?_fields {name : String} {fields : List (String × Toml)} {place : Nat} {x? : Option Binary64}
    (found : Table.lookup? name fields = x?.map .float) :
    (Toml.Record.named fields).optional? place name Toml.double? = some x? := by
  cases x? with
  | none => exact optional?_eq_none found
  | some x => exact optional?_eq (r := .named fields) found

/-- A directory is read back from its table. -/
theorem Pickup.ofToml?_fields (p : Pickup) : ofToml? (.table p.fields) = some p := by
  have key : (Toml.Record.named p.fields).field? 0 "key" = some (.string p.key) := rfl
  have directory : (Toml.Record.named p.fields).field? 1 "directory" = some (.string p.directory) := rfl
  have mode : (Toml.Record.named p.fields).field? 2 "mode" = some (.string p.mode.name) := rfl
  have least : Table.lookup? "min_interval_secs" p.fields = p.minSecs.map .float := by
    obtain ⟨_, _, _, _ | _, _ | _⟩ := p <;> rfl
  have greatest : Table.lookup? "max_interval_secs" p.fields = p.maxSecs.map .float := by
    obtain ⟨_, _, _, _ | _, _ | _⟩ := p <;> rfl
  simp only [ofToml?, Toml.record?, Option.bind_eq_bind, Option.bind_some, required?_eq key,
    required?_eq directory, defaulted?_eq mode, optional?_fields least, optional?_fields greatest, Toml.text?,
    PickupMode.ofToml?_name]
  rfl

/-- So are all of them from their list. -/
theorem pickupsOfToml?_fields (pickups : List Pickup) :
    pickupsOfToml? (.array (pickups.map fun p => .table p.fields)) = some pickups := by
  rw [pickupsOfToml?]
  induction pickups with
  | nil => rfl
  | cons p rest ih =>
      simp only [List.map_cons, List.mapM_cons, Pickup.ofToml?_fields, ih, Option.bind_eq_bind, Option.bind_some]
      rfl

theorem Health.ofToml?_fields {h : Health} (port : h.port ≤ max16) : ofToml? (.table h.fields) = some h := by
  have found : (Toml.Record.named h.fields).field? 0 "port" = some (natural h.port) := rfl
  simp only [ofToml?, Toml.record?, Option.bind_eq_bind, Option.bind_some, defaulted?_eq found,
    natural?_natural port]
  rfl

/-! ### The document

What a configuration is shown as is a document with a section for each of its parts.  All values in it can be
written, and no two sections share a name, apart from the directories. -/

theorem writable_natural {n : Nat} (within : n ≤ maxSigned64) : Writable (natural n) := by
  refine .integer (if_pos ?_)
  rw [maxSigned64] at within
  omega

theorem writable_seconds {x : Binary64} (double : x.IsDouble) (seconds : x.IsSeconds) : Writable (.float x) := by
  cases x with
  | finite negative units => exact .float double
  | infinite negative => cases seconds.1
  | nan => cases seconds.1

theorem writable_optionalField {name : String} (bare : IsBare name) {x? : Option Binary64}
    (double : ∀ x ∈ x?, x.IsDouble) (seconds : ∀ x ∈ x?, x.IsSeconds) :
    ∀ field ∈ optionalField name x?, IsBare field.1 ∧ Writable field.2 := by
  intro field member
  cases x? with
  | none => cases member
  | some x =>
      obtain rfl := List.mem_singleton.mp member
      exact ⟨bare, writable_seconds (double x rfl) (seconds x rfl)⟩

theorem Identity.writableFields (i : Identity) : WritableFields i.fields where
  each := by
    simp only [fields, List.forall_mem_cons]
    exact ⟨⟨by decide, .string _⟩, ⟨by decide, .string _⟩, by simp⟩
  apart := show ["id", "pipeline"].Nodup by decide

theorem Polling.writableFields {p : Polling} (sized : p.Sized) (least : p.minSecs.IsSeconds)
    (greatest : p.maxSecs.IsSeconds) : WritableFields p.fields where
  each := by
    simp only [fields, List.forall_mem_cons]
    exact ⟨⟨by decide, writable_seconds sized.least least⟩, ⟨by decide, writable_seconds sized.greatest greatest⟩,
      ⟨by decide, writable_natural sized.idle⟩, by simp⟩
  apart := show ["min_interval_secs", "max_interval_secs", "idle_wait_ms"].Nodup by decide

/-- A section with a single number. -/
theorem writableFields_natural {name : String} (bare : IsBare name) {n : Nat} (within : n ≤ maxSigned64) :
    WritableFields [(name, natural n)] where
  each := by
    rw [List.forall_mem_singleton]
    exact ⟨bare, writable_natural within⟩
  apart := by simp

theorem Http.writableFields {h : Http} (sized : h.Sized) : WritableFields h.fields where
  each := by
    simp only [fields, List.forall_mem_cons]
    exact ⟨⟨by decide, .string _⟩, ⟨by decide, writable_natural sized.accepts⟩, ⟨by decide, .string _⟩,
      ⟨by decide, writable_natural sized.grace⟩, by simp⟩
  apart := show ["bind_address", "max_concurrent_accepts", "submit_path", "shutdown_grace_ms"].Nodup by decide

theorem Pickup.writableFields {p : Pickup} (sized : p.Sized)
    (own : (∀ x ∈ p.minSecs, x.IsSeconds) ∧ ∀ x ∈ p.maxSecs, x.IsSeconds) : WritableFields p.fields where
  each := by
    simp only [fields, List.forall_mem_append, List.forall_mem_cons]
    exact ⟨⟨⟨⟨by decide, .string _⟩, ⟨by decide, .string _⟩, ⟨by decide, .string _⟩, by simp⟩,
      writable_optionalField (by decide) sized.least own.1⟩,
      writable_optionalField (by decide) sized.greatest own.2⟩
  apart := by
    have full : ["key", "directory", "mode", "min_interval_secs", "max_interval_secs"].Nodup := by decide
    refine full.sublist ?_
    obtain ⟨_, _, _, _ | _, _ | _⟩ := p <;> simp [fields, optionalField]

/-- The sections in front of the directories, which are tables. -/
def frontSections (c : Config) : List Toml.Section :=
  [table "runtime" c.identity.fields, table "scheduler" c.polling.fields, table "batch" c.batch.fields] ++
    c.http.toList.map fun h => table "http" h.fields

/-- The sections of the directories, and the last one. -/
def backSections (c : Config) : List Toml.Section :=
  (c.pickups.map fun p => ⟨"pickup", true, p.fields⟩) ++ [table "health" c.health.fields]

/-- The sections stand in two groups, and the directories begin the second. -/
theorem sections_document (c : Config) : c.document.sections = c.frontSections ++ c.backSections := by
  rw [document, frontSections, backSections]
  simp only [List.append_assoc]

theorem name_of_mem_frontSections {c : Config} {s : Toml.Section} (member : s ∈ c.frontSections) :
    s.name ∈ ["runtime", "scheduler", "batch", "http"] := by
  rcases List.mem_append.mp member with fixed | http
  · simp only [List.mem_cons, List.not_mem_nil, or_false] at fixed
    rcases fixed with rfl | rfl | rfl
    · exact .head _
    · exact .tail _ (.head _)
    · exact .tail _ (.tail _ (.head _))
  · obtain ⟨h, -, rfl⟩ := List.mem_map.mp http
    exact .tail _ (.tail _ (.tail _ (.head _)))

theorem name_of_mem_backSections {c : Config} {s : Toml.Section} (member : s ∈ c.backSections) :
    s.name = "pickup" ∧ c.pickups ≠ [] ∨ s.name = "health" := by
  rcases List.mem_append.mp member with pickup | last
  · obtain ⟨p, inside, rfl⟩ := List.mem_map.mp pickup
    exact .inl ⟨rfl, List.ne_nil_of_mem inside⟩
  · obtain rfl := List.mem_singleton.mp last
    exact .inr rfl

/-! ### What a document holds

Under each name the document holds one table, or the list of the directories, or nothing. -/

theorem named_document (c : Config) (name : String) : c.document.named name =
    c.frontSections.filter (·.name = name) ++ c.backSections.filter (·.name = name) := by
  rw [Toml.Document.named, sections_document, List.filter_append]

/-- A receiver that is not configured has no section. -/
theorem field?_http (c : Config) : c.document.field? "http" = c.http.map (.table ·.fields) := by
  have named : c.document.named "http" = c.http.toList.map fun h => table "http" h.fields := by
    rw [named_document]
    simp [frontSections, backSections, table, List.filter_map, Function.comp_def, List.filter_true, List.filter_false]
  have values : Table.lookup? "http" c.document.values = none := by
    rw [document]
    simp only
    split <;> rfl
  rw [Toml.Document.field?, named]
  cases c.http with
  | none => exact values
  | some h => rfl

/-- The directories are one list, whether it is empty or not. -/
theorem field?_pickup (c : Config) :
    c.document.field? "pickup" = some (.array (c.pickups.map fun p => .table p.fields)) := by
  have named : c.document.named "pickup" = c.pickups.map fun p => ⟨"pickup", true, p.fields⟩ := by
    rw [named_document]
    simp [frontSections, backSections, table, List.filter_map, Function.comp_def, List.filter_true, List.filter_false]
  rw [Toml.Document.field?, named]
  cases known : c.pickups with
  | nil =>
      rw [document, known]
      rfl
  | cons p rest =>
      simp only [List.map_cons, if_true, List.map_map]
      rfl

/-- The other sections are always there. -/
theorem field?_tables (c : Config) :
    c.document.field? "runtime" = some (.table c.identity.fields) ∧
    c.document.field? "scheduler" = some (.table c.polling.fields) ∧
    c.document.field? "batch" = some (.table c.batch.fields) ∧
    c.document.field? "health" = some (.table c.health.fields) := by
  simp [Toml.Document.field?, named_document, frontSections, backSections, table, List.filter_map,
    Function.comp_def, List.filter_false]

/-- A table that holds what the document of a configuration holds describes this configuration. -/
theorem ofToml?_of_holds {c : Config} (sized : c.Sized) {fields : List (String × Toml)}
    (holds : ∀ name, Table.lookup? name fields = c.document.field? name) : ofToml? (.table fields) = some c := by
  obtain ⟨runtime, scheduler, batch, health⟩ := field?_tables c
  have field (place : Nat) {name : String} {v : Toml} (known : c.document.field? name = some v) :
      (Toml.Record.named fields).field? place name = some v := (holds name).trans known
  have http : (Toml.Record.named fields).optional? 3 "http" Http.ofToml? = some c.http := by
    have known := field?_http c
    cases served : c.http with
    | none =>
        rw [served] at known
        exact optional?_eq_none ((holds _).trans known)
    | some h =>
        rw [served] at known
        rw [optional?_eq (field 3 known), Http.ofToml?_fields (sized.http h served)]
        rfl
  simp only [ofToml?, Toml.record?, Option.bind_eq_bind, Option.bind_some, required?_eq (field 0 runtime),
    defaulted?_eq (field 1 scheduler), defaulted?_eq (field 2 batch), http,
    defaulted?_eq (field 4 (field?_pickup c)), defaulted?_eq (field 5 health), Identity.ofToml?_fields,
    Polling.ofToml?_fields sized.polling, Batch.ofToml?_fields sized.interval, pickupsOfToml?_fields,
    Health.ofToml?_fields sized.port]
  rfl

/-! ### The whole text

The text of the document is read as a table that holds what the document holds, and so describes the
configuration. -/

section

variable {c : Config} (valid : c.Valid) (sized : c.Sized)

include valid sized

/-- The document has no name for two things. -/
theorem wellFormed_document : c.document.WellFormed where
  values := by
    rw [document]
    simp only
    split
    · exact ⟨by simpa using ⟨by decide, .empty⟩, by simp⟩
    · exact ⟨by simp, by simp⟩
  sections := by
    simp only [document, table, List.forall_mem_append, List.forall_mem_cons]
    refine ⟨⟨⟨⟨?_, ?_, ?_, by simp⟩, ?_⟩, ?_⟩, ?_, by simp⟩
    · exact ⟨by decide, Identity.writableFields _⟩
    · exact ⟨by decide, Polling.writableFields sized.polling valid.least valid.greatest⟩
    · exact ⟨by decide, writableFields_natural (by decide) sized.interval⟩
    · intro s member
      obtain ⟨http, known, rfl⟩ := List.mem_map.mp member
      exact ⟨show IsBare "http" by decide, Http.writableFields (sized.http http (Option.mem_toList.mp known))⟩
    · intro s member
      obtain ⟨p, inside, rfl⟩ := List.mem_map.mp member
      exact ⟨show IsBare "pickup" by decide, Pickup.writableFields (sized.pickups p inside) (valid.own p inside)⟩
    · exact ⟨by decide, writableFields_natural (by decide) (sized.port.trans (by decide))⟩
  beside := by
    intro s member
    rw [sections_document] at member
    have other (none : c.pickups = []) : s.name ≠ "pickup" := by
      rcases List.mem_append.mp member with front | back
      · rintro same
        exact absurd (same ▸ name_of_mem_frontSections front) (by decide)
      · rintro same
        rcases name_of_mem_backSections back with ⟨-, some⟩ | last
        · exact some none
        · exact absurd (same.symm.trans last) (by decide)
    rw [document]
    simp only
    split
    · next none => rw [Table.lookup?, if_neg (other none), Table.lookup?]
    · rfl
  apart := by
    rw [sections_document, List.pairwise_append]
    refine ⟨?_, ?_, fun s front t back same => ?_⟩
    · rw [frontSections]
      cases c.http <;> simp [table]
    · rw [backSections, List.pairwise_append, List.pairwise_map]
      refine ⟨List.pairwise_of_forall fun _ _ _ => ⟨rfl, rfl⟩, List.pairwise_singleton _ _, ?_⟩
      intro s pickup t last same
      obtain ⟨p, -, rfl⟩ := List.mem_map.mp pickup
      obtain rfl := List.mem_singleton.mp last
      exact absurd same (show "pickup" ≠ "health" by decide)
    · have name := name_of_mem_frontSections front
      rw [same] at name
      rcases name_of_mem_backSections back with ⟨pickup, -⟩ | last
      · exact absurd (pickup ▸ name) (by decide)
      · exact absurd (last ▸ name) (by decide)

/-- Its text is read as the configuration. -/
theorem read?_text : (Toml.read? c.text).bind ofToml? = some c := by
  obtain ⟨fields, read, holds⟩ := Toml.Document.read?_text (wellFormed_document valid sized)
  have text : Toml.read? c.text = some (.table fields) := read
  rw [text, Option.bind_some, ofToml?_of_holds sized holds]

end

open Command (Output check info lastMessage succeeded) in
/-- Whatever text a configuration was read from: what is shown of it is read as the same configuration. -/
theorem shown_config_reads_back (text : String) (c : Config) (accepted : read text = .ok c)
    (output : List Output) : ∃ shown, check output c true =
        .ended (output ++ [.text ("Current configuration:\n" ++ shown ++ "\n")] ++
          [info 258 "Configuration validation complete" [], lastMessage]) succeeded ∧
      read shown = .ok c := by
  obtain ⟨-, passed⟩ := read_eq_ok_iff.mp accepted
  exact ⟨c.text, rfl, read_eq_ok_iff.mpr ⟨read?_text (valid_of_validate passed) (sized_of_read accepted), passed⟩⟩

open Command (Output check info lastMessage succeeded) in
/-- Sections left out, whole numbers as seconds, texts that need each form of string, and directories with and
without bounds. -/
theorem awkward_config_reads_back :
    let lines := ["http = \x7b bind_address = \"a\\\"b\\\\'\\u0007\", submit_path = 'C:\\in' \x7d\n",
      "[runtime]\nid = 'relay-1'\npipeline = \"'''\\n\\\"\\\"\\\"\\t\"\n",
      "[scheduler]\nmin_interval_secs = 5\nmax_interval_secs = 1e3\nidle_wait_ms = 0x7fff_ffff_ffff_ffff\n",
      "[[pickup]]\nkey = \"it's\"\ndirectory = '''a\n\"b\"'''\nmax_interval_secs = 0.1\n",
      "[[pickup]]\nkey = \"\\u00fc\"\ndirectory = \"\"\nmode = \x7b batch = [] \x7d\nmin_interval_secs = -0.0\n"]
    let text := String.ofList (lines.flatMap String.toList)
    let c : Config :=
      { identity := ⟨"relay-1", "'''\n\"\"\"\t"⟩, polling := ⟨.ofNat 5, .ofNat 1000, maxSigned64⟩
        batch := .standard, http := some ⟨"a\"b\\'\x07", standardMaxAccepts, "C:\\in", standardGraceMs⟩
        pickups := [⟨"it's", "a\n\"b\"", .scheduled, none, some (.ofRatio false 1 10)⟩,
          ⟨"ü", "", .batch, some (.finite true 0), none⟩]
        health := .standard }
    read text = .ok c ∧ ∀ output : List Output, ∃ shown, check output c true =
        .ended (output ++ [.text ("Current configuration:\n" ++ shown ++ "\n")] ++
          [info 258 "Configuration validation complete" [], lastMessage]) succeeded ∧
      read shown = .ok c := by
  intro lines text c
  have described : (Toml.readChars? (lines.flatMap String.toList)).bind ofToml? = some c := by decide +kernel
  have accepted : read text = .ok c := by
    rw [read_eq_ok_iff, Toml.read?, String.toList_ofList]
    exact ⟨described, by decide +kernel⟩
  exact ⟨accepted, shown_config_reads_back text c accepted⟩

end Config

end Intake
