/-
Module: Intake.Proofs.Config.Reading
Purpose: What is known of a configuration that was read from a text.
Main exports: Config.Valid, Config.valid_of_validate, Config.Fits, Config.Sized, Config.sized_of_ofToml,
  Config.read_eq_ok_iff, Config.valid_and_fits_of_read

Two sources are kept apart: what the checks let pass, and what the reader of documents can produce at all.
-/
import Intake.Config.Document
import Intake.Proofs.Table
import Intake.Proofs.Time.Spans
import Intake.Proofs.Toml.Sized

namespace Intake

theorem exists_of_bind_ok {ε α β : Type} {x : Except ε α} {f : α → Except ε β} {b : β}
    (h : (x >>= f) = .ok b) : ∃ a, x = .ok a ∧ f a = .ok b := by
  cases x with
  | error e => cases h
  | ok a => exact ⟨a, rfl, h⟩

theorem eq_ok_of_toOption {ε α : Type} {x : Except ε α} {value : α} (h : x.toOption = some value) :
    x = .ok value := by
  cases x with
  | error cause => cases h
  | ok other => rw [Option.some.inj h]

theorem exists_of_mem_mapM {α β : Type} {f : α → Option β} {items : List α} {results : List β} {y : β}
    (done : items.mapM f = some results) (member : y ∈ results) : ∃ x ∈ items, f x = some y := by
  induction items generalizing results with
  | nil =>
      cases done
      cases member
  | cons x items ih =>
      simp only [List.mapM_cons, Option.bind_eq_bind, Option.bind_eq_some_iff] at done
      obtain ⟨first, own, rest, others, same⟩ := done
      obtain rfl := Option.some.inj same
      rcases List.mem_cons.mp member with rfl | behind
      · exact ⟨x, List.mem_cons_self, own⟩
      · obtain ⟨x', inside, own'⟩ := ih others behind
        exact ⟨x', List.mem_cons_of_mem _ inside, own'⟩

namespace Config

/-! ### What the checks let pass

The checks are made one after another, and each lets pass what it is named for. -/

/-- What holds of a configuration that was validated. -/
structure Valid (c : Config) : Prop where
  keys : (c.pickups.map (·.key)).Nodup
  own : ∀ p ∈ c.pickups, (∀ x ∈ p.minSecs, x.IsSeconds) ∧ ∀ x ∈ p.maxSecs, x.IsSeconds
  least : c.polling.minSecs.IsSeconds
  greatest : c.polling.maxSecs.IsSeconds
  interval : c.batch.pollingIntervalMs ≠ 0
  accepts : ∀ http ∈ c.http, http.maxConcurrentAccepts ≠ 0

/-- A bound that passes is a number of seconds. -/
theorem isSeconds_of_check {owner : String} {x : Binary64} (passed : checkInterval owner x = .ok ()) :
    x.IsSeconds := by
  rw [checkInterval] at passed
  split at passed
  · cases passed
  · next fine =>
      rw [Bool.not_eq_true, Bool.or_eq_false_iff, Bool.not_eq_false'] at fine
      exact ⟨fine.1, fine.2⟩

/-- So is one that may be left out. -/
theorem isSeconds_of_optionalCheck {owner : String} {x? : Option Binary64}
    (passed : checkOptionalInterval owner x? = .ok ()) : ∀ x ∈ x?, x.IsSeconds := by
  rintro x rfl
  exact isSeconds_of_check passed

/-- A directory that passes has a key of its own and bounds that are seconds. -/
theorem own_of_checkPickup {taken : List String} {p : Pickup} (passed : checkPickup taken p = .ok ()) :
    p.key ∉ taken ∧ (∀ x ∈ p.minSecs, x.IsSeconds) ∧ ∀ x ∈ p.maxSecs, x.IsSeconds := by
  simp only [checkPickup] at passed
  split at passed
  · cases passed
  · split at passed
    · cases passed
    · next free =>
        obtain ⟨⟨⟩, least, greatest⟩ := exists_of_bind_ok passed
        exact ⟨free, isSeconds_of_optionalCheck least, isSeconds_of_optionalCheck greatest⟩

/-- The directories that pass have keys of their own. -/
theorem own_of_checkPickups {taken : List String} {pickups : List Pickup}
    (passed : checkPickups taken pickups = .ok ()) :
    (pickups.map (·.key)).Nodup ∧ (∀ p ∈ pickups, p.key ∉ taken) ∧
      ∀ p ∈ pickups, (∀ x ∈ p.minSecs, x.IsSeconds) ∧ ∀ x ∈ p.maxSecs, x.IsSeconds := by
  induction pickups generalizing taken with
  | nil => simp
  | cons first rest ih =>
      obtain ⟨⟨⟩, own, others⟩ := exists_of_bind_ok passed
      obtain ⟨free, seconds⟩ := own_of_checkPickup own
      obtain ⟨apart, free', seconds'⟩ := ih others
      refine ⟨?_, ?_, ?_⟩
      · rw [List.map_cons, List.nodup_cons]
        refine ⟨fun member => ?_, apart⟩
        obtain ⟨p, behind, same⟩ := List.mem_map.mp member
        exact free' p behind (same ▸ List.mem_cons_self)
      · rintro p member
        rcases List.mem_cons.mp member with rfl | behind
        · exact free
        · exact fun known => free' p behind (List.mem_cons_of_mem _ known)
      · rintro p member
        rcases List.mem_cons.mp member with rfl | behind
        · exact seconds
        · exact seconds' p behind

/-- A configuration that passes all checks is valid. -/
theorem valid_of_validate {c : Config} (passed : c.validate = .ok ()) : c.Valid := by
  rw [validate] at passed
  obtain ⟨⟨⟩, -, passed⟩ := exists_of_bind_ok passed
  obtain ⟨⟨⟩, pickups, passed⟩ := exists_of_bind_ok passed
  obtain ⟨⟨⟩, least, passed⟩ := exists_of_bind_ok passed
  obtain ⟨⟨⟩, greatest, passed⟩ := exists_of_bind_ok passed
  obtain ⟨keys, -, own⟩ := own_of_checkPickups pickups
  simp only at passed
  split at passed
  · cases passed
  · next interval =>
      refine ⟨keys, own, isSeconds_of_check least, isSeconds_of_check greatest, interval, ?_⟩
      intro http known none
      rw [Option.mem_def.mp known] at passed
      simp only [if_pos none] at passed
      cases passed

/-! ### What the reader can produce

Documents hold whole numbers with a sign among their 64 digits, and floats that are doubles.  Section by
section, the configuration read from one can hold no others. -/

/-- The numbers of a configuration have 64 binary digits: seconds are doubles, and whole numbers are not too
large. -/
structure Fits (c : Config) : Prop where
  least : c.polling.minSecs.IsDouble
  greatest : c.polling.maxSecs.IsDouble
  idle : c.polling.idleWaitMs ≤ max64
  interval : c.batch.pollingIntervalMs ≤ max64
  http : ∀ http ∈ c.http, http.maxConcurrentAccepts ≤ max64 ∧ http.shutdownGraceMs ≤ max64

/-- The numbers in documents are smaller: whole ones have a sign among their 64 digits. -/
structure Polling.Sized (p : Polling) : Prop where
  least : p.minSecs.IsDouble
  greatest : p.maxSecs.IsDouble
  idle : p.idleWaitMs ≤ maxSigned64

/-- An HTTP receiver that a document can describe. -/
structure Http.Sized (h : Http) : Prop where
  accepts : h.maxConcurrentAccepts ≤ maxSigned64
  grace : h.shutdownGraceMs ≤ maxSigned64

/-- A directory that a document can describe. -/
structure Pickup.Sized (p : Pickup) : Prop where
  least : ∀ x ∈ p.minSecs, x.IsDouble
  greatest : ∀ x ∈ p.maxSecs, x.IsDouble

/-- A configuration that a document can describe. -/
structure Sized (c : Config) : Prop where
  polling : c.polling.Sized
  interval : c.batch.pollingIntervalMs ≤ maxSigned64
  http : ∀ http ∈ c.http, http.Sized
  pickups : ∀ p ∈ c.pickups, p.Sized
  port : c.health.port ≤ max16

theorem maxSigned64_le : maxSigned64 ≤ max64 := by decide

/-- What a document can describe fits into words. -/
theorem Sized.fits {c : Config} (h : c.Sized) : c.Fits where
  least := h.polling.least
  greatest := h.polling.greatest
  idle := h.polling.idle.trans maxSigned64_le
  interval := h.interval.trans maxSigned64_le
  http http known :=
    ⟨(h.http http known).accepts.trans maxSigned64_le, (h.http http known).grace.trans maxSigned64_le⟩

/-- A natural number of a document is within its limit and fits. -/
theorem natural_le {limit n : Nat} {t : Toml} (h : t.Sized) (read : t.natural? limit = some n) :
    n ≤ limit ∧ n ≤ maxSigned64 := by
  cases h with
  | integer bounded =>
      rw [Toml.natural?] at read
      split at read
      · next within =>
          cases read
          refine ⟨within.2, ?_⟩
          rw [Toml.bounded?] at bounded
          split at bounded
          · next inside =>
              rw [maxSigned64]
              omega
          · cases bounded
      · cases read
  | _ => cases read

theorem isDouble_double {t : Toml} {x : Binary64} (h : t.Sized) (read : t.double? = some x) :
    x.IsDouble := by
  cases h with
  | float double =>
      cases read
      exact double
  | integer _ =>
      rw [Toml.double?] at read
      rw [← Option.some.inj read]
      exact Binary64.isDouble_ofRatio _ _ Nat.one_pos
  | _ => cases read

theorem sized_field {t v : Toml} {r : Toml.Record} {place : Nat} {name : String} (h : t.Sized)
    (record : t.record? = some r) (found : r.field? place name = some v) : v.Sized := by
  cases h with
  | table all =>
      cases record
      exact all (name, v) (Table.mem_of_lookup? found)
  | array all =>
      cases record
      exact all v (List.mem_of_getElem? found)
  | _ => cases record

section Fields

variable {α : Type} {r : Toml.Record} {place : Nat} {name : String} {read : Toml → Option α}

/-- A field with a value of its own has that value or the one that was read. -/
theorem of_defaulted {P : α → Prop} {standard x : α} (own : P standard)
    (found : r.defaulted? place name standard read = some x)
    (good : ∀ v, r.field? place name = some v → ∀ x, read v = some x → P x) : P x := by
  rw [Toml.Record.defaulted?] at found
  split at found
  · cases found
    exact own
  · next v field => exact good v field x found

theorem of_optional {P : α → Prop} {x? : Option α} (found : r.optional? place name read = some x?)
    (good : ∀ v, r.field? place name = some v → ∀ x, read v = some x → P x) : ∀ x ∈ x?, P x := by
  cases field : r.field? place name with
  | some v =>
      simp only [Toml.Record.optional?, field] at found
      obtain ⟨x, own, rfl⟩ := Option.map_eq_some_iff.mp found
      rintro y member
      obtain rfl := Option.mem_some.mp member
      exact good v field _ own
  | none =>
      rintro y rfl
      simp only [Toml.Record.optional?, field] at found
      cases r <;> cases found

end Fields

/-! #### Sections -/

section Sections

variable {t : Toml} (h : t.Sized)

theorem Polling.sized_standard : Polling.standard.Sized := by
  constructor
  all_goals simp only [Polling.standard]
  case least => exact Binary64.isDouble_ofNat 5
  case greatest => exact Binary64.isDouble_ofNat 300
  case idle => decide

include h

theorem Polling.sized_of_ofToml {p : Polling} (read : ofToml? t = some p) : p.Sized := by
  simp only [ofToml?, Option.bind_eq_bind, Option.bind_eq_some_iff] at read
  obtain ⟨r, record, least, hl, greatest, hg, idle, hi, same⟩ := read
  obtain rfl := Option.some.inj same
  exact ⟨of_defaulted sized_standard.least hl fun v field x => isDouble_double (sized_field h record field),
    of_defaulted sized_standard.greatest hg fun v field x => isDouble_double (sized_field h record field),
    of_defaulted (P := (· ≤ maxSigned64)) sized_standard.idle hi fun v field n read =>
      (natural_le (sized_field h record field) read).2⟩

theorem Batch.interval_of_ofToml {b : Batch} (read : ofToml? t = some b) :
    b.pollingIntervalMs ≤ maxSigned64 := by
  simp only [ofToml?, Option.bind_eq_bind, Option.bind_eq_some_iff] at read
  obtain ⟨r, record, interval, found, same⟩ := read
  obtain rfl := Option.some.inj same
  exact of_defaulted (P := (· ≤ maxSigned64)) (by decide) found fun v field n read =>
    (natural_le (sized_field h record field) read).2

theorem Http.sized_of_ofToml {http : Http} (read : ofToml? t = some http) : http.Sized := by
  simp only [ofToml?, Option.bind_eq_bind, Option.bind_eq_some_iff] at read
  obtain ⟨r, record, address, -, accepts, ha, path, -, grace, hg, same⟩ := read
  obtain rfl := Option.some.inj same
  exact ⟨of_defaulted (P := (· ≤ maxSigned64)) (by decide) ha fun v field n read =>
      (natural_le (sized_field h record field) read).2,
    of_defaulted (P := (· ≤ maxSigned64)) (by decide) hg fun v field n read =>
      (natural_le (sized_field h record field) read).2⟩

theorem Pickup.sized_of_ofToml {p : Pickup} (read : ofToml? t = some p) : p.Sized := by
  simp only [ofToml?, Option.bind_eq_bind, Option.bind_eq_some_iff] at read
  obtain ⟨r, record, key, -, directory, -, mode, -, least, hl, greatest, hg, same⟩ := read
  obtain rfl := Option.some.inj same
  exact ⟨of_optional hl fun v field x => isDouble_double (sized_field h record field),
    of_optional hg fun v field x => isDouble_double (sized_field h record field)⟩

theorem sized_of_pickupsOfToml {pickups : List Pickup} (read : pickupsOfToml? t = some pickups) :
    ∀ p ∈ pickups, p.Sized := by
  cases h with
  | array all =>
      intro p member
      obtain ⟨item, inside, own⟩ := exists_of_mem_mapM read member
      exact Pickup.sized_of_ofToml (all item inside) own
  | _ => cases read

theorem Health.port_of_ofToml {health : Health} (read : ofToml? t = some health) : health.port ≤ max16 := by
  simp only [ofToml?, Option.bind_eq_bind, Option.bind_eq_some_iff] at read
  obtain ⟨r, record, port, found, same⟩ := read
  obtain rfl := Option.some.inj same
  exact of_defaulted (P := (· ≤ max16)) (by decide) found fun v field n read =>
    (natural_le (sized_field h record field) read).1

/-- A configuration that is read from a document is one that it can describe. -/
theorem sized_of_ofToml {c : Config} (read : ofToml? t = some c) : c.Sized := by
  simp only [ofToml?, Option.bind_eq_bind, Option.bind_eq_some_iff] at read
  obtain ⟨r, record, identity, -, polling, hp, batch, hb, http, hh, pickups, hk, health, hl, same⟩ := read
  obtain rfl := Option.some.inj same
  exact ⟨of_defaulted Polling.sized_standard hp fun v field p => Polling.sized_of_ofToml (sized_field h record field),
    of_defaulted (P := fun b => b.pollingIntervalMs ≤ maxSigned64) (by decide) hb fun v field b =>
      Batch.interval_of_ofToml (sized_field h record field),
    of_optional hh fun v field http => Http.sized_of_ofToml (sized_field h record field),
    of_defaulted (P := fun pickups => ∀ p ∈ pickups, Pickup.Sized p) (by simp) hk fun v field pickups =>
      sized_of_pickupsOfToml (sized_field h record field),
    of_defaulted (P := fun health => health.port ≤ max16) (by decide) hl fun v field health =>
      Health.port_of_ofToml (sized_field h record field)⟩

end Sections

/-- A configuration is read from a document that describes it, if it is valid. -/
theorem read_eq_ok_iff {text : String} {c : Config} :
    read text = .ok c ↔ (Toml.read? text).bind ofToml? = some c ∧ c.validate = .ok () := by
  rw [read]
  cases described : (Toml.read? text).bind ofToml? with
  | none => simp
  | some c' =>
      cases passed : c'.validate with
      | error cause =>
          constructor
          · intro found
            simp only [passed] at found
            cases found
          · rintro ⟨same, passed'⟩
            cases same
            cases passed.symm.trans passed'
      | ok done =>
          constructor
          · intro found
            simp only [passed] at found
            cases found
            exact ⟨rfl, passed⟩
          · rintro ⟨same, -⟩
            cases same
            simp only [passed]
            rfl

/-- A configuration that is read from a text is one that a document can describe. -/
theorem sized_of_read {text : String} {c : Config} (found : read text = .ok c) : c.Sized := by
  obtain ⟨described, -⟩ := read_eq_ok_iff.mp found
  obtain ⟨t, parsed, record⟩ := Option.bind_eq_some_iff.mp described
  exact sized_of_ofToml (Toml.sized_read parsed) record

/-- What is known of a configuration that was read from a text. -/
theorem valid_and_fits_of_read {text : String} {c : Config} (found : read text = .ok c) :
    c.Valid ∧ c.Fits :=
  ⟨valid_of_validate (read_eq_ok_iff.mp found).2, (sized_of_read found).fits⟩

end Config

end Intake
