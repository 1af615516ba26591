/-
Module: Intake.Toml.Basic
Purpose: TOML values, and reading records out of them.
Main exports: Toml, Toml.Record, Toml.record?, Toml.text?, Toml.double?, Toml.natural?
-/
import Intake.Table
import Intake.Number.Natural
import Intake.Number.Binary64

namespace Intake

/-- A TOML value.  Dates and times are recognised but carry no value here. -/
inductive Toml where
  | string (s : String)
  | integer (n : Int)
  | float (x : Binary64)
  | boolean (b : Bool)
  | dateTime
  | array (items : List Toml)
  | table (fields : List (String × Toml))
  deriving Repr, Inhabited

namespace Toml

/-- The fields of a record, by name or by position.  In a table unknown fields are passed over, in a
list further items. -/
inductive Record where
  | named (fields : List (String × Toml))
  | listed (items : List Toml)
  deriving Repr

/-- A table by name, an array by position. -/
def record? : Toml → Option Record
  | .table fields => some (.named fields)
  | .array items => some (.listed items)
  | _ => none

namespace Record

def field? (r : Record) (place : Nat) (name : String) : Option Toml :=
  match r with
  | .named fields => Table.lookup? name fields
  | .listed items => items[place]?

/-- A field that must be there. -/
def required? (r : Record) (place : Nat) (name : String) (read : Toml → Option α) : Option α :=
  (r.field? place name).bind read

/-- A field with a value of its own where it is missing. -/
def defaulted? (r : Record) (place : Nat) (name : String) (standard : α) (read : Toml → Option α) :
    Option α :=
  match r.field? place name with
  | none => some standard
  | some value => read value

/-- A field that a table may leave out; a list has no way to do so. -/
def optional? (r : Record) (place : Nat) (name : String) (read : Toml → Option α) :
    Option (Option α) :=
  match r.field? place name, r with
  | some value, _ => (read value).map some
  | none, .named _ => some none
  | none, .listed _ => none

end Record

def text? : Toml → Option String
  | .string s => some s
  | _ => none

/-- A float, or an integer rounded to the nearest one. -/
def double? : Toml → Option Binary64
  | .float x => some x
  | .integer n => some (.ofRatio (decide (n < 0)) n.natAbs 1)
  | _ => none

/-- An integer from zero to a limit. -/
def natural? (limit : Nat) : Toml → Option Nat
  | .integer n => if 0 ≤ n ∧ n.toNat ≤ limit then some n.toNat else none
  | _ => none

end Toml

end Intake
