/-
Module: Intake.Json.Basic
Purpose: JSON values, their equality as data, and looking into them by a pointer.
Main exports: Json.Number, Json, Json.same, Json.field?, Json.pointer?
-/
import Intake.Table
import Intake.Number.Natural
import Intake.Number.Binary64

namespace Intake

/-- A JSON number: an integer that 64 binary digits hold, signed or not, or else a double. -/
inductive Json.Number where
  | integer (n : Int)
  | double (x : Binary64)
  deriving Repr, DecidableEq

/-- A JSON value.  The fields of an object are in ascending order of their names, each name once. -/
inductive Json where
  | null
  | bool (b : Bool)
  | number (n : Json.Number)
  | string (s : String)
  | array (items : List Json)
  | object (fields : List (String × Json))
  deriving Repr, Inhabited

namespace Json

/-- Equality of numbers as data: an integer differs from every double, and both zeros are equal. -/
def Number.same : Number → Number → Bool
  | .integer m, .integer n => m == n
  | .double x, .double y => Binary64.le x y && Binary64.le y x
  | _, _ => false

mutual

/-- Equality of values as data. -/
def same : Json → Json → Bool
  | .null, .null => true
  | .bool a, .bool b => a == b
  | .number m, .number n => m.same n
  | .string s, .string t => s == t
  | .array xs, .array ys => sameItems xs ys
  | .object xs, .object ys => sameFields xs ys
  | _, _ => false

def sameItems : List Json → List Json → Bool
  | [], [] => true
  | x :: xs, y :: ys => same x y && sameItems xs ys
  | _, _ => false

def sameFields : List (String × Json) → List (String × Json) → Bool
  | [], [] => true
  | (k, x) :: xs, (l, y) :: ys => k == l && same x y && sameFields xs ys
  | _, _ => false

end

/-- A field of an object; other values have none. -/
def field? (name : String) : Json → Option Json
  | .object fields => Table.lookup? name fields
  | _ => none

/-- The object of fields in any order; of several fields of one name the last stays. -/
def ofFields (fields : List (String × Json)) : Json := .object (Table.ofList fields).entries

def ofNat (n : Nat) : Json := .number (.integer n)

def ofDouble (x : Binary64) : Json := .number (.double x)

/-- The form of a value, or null where there is none. -/
def ofOption (form : α → Json) : Option α → Json
  | some x => form x
  | none => .null

def ofText? (s : Option String) : Json := ofOption .string s

/-- An object of texts. -/
def ofTexts (t : Table String) : Json := .object (t.entries.map fun (k, v) => (k, .string v))

/-- Splits a text at every occurrence of a character. -/
def splitAtChar (separator : Char) : List Char → List (List Char)
  | [] => [[]]
  | c :: rest =>
    match splitAtChar separator rest with
    | part :: parts => if c = separator then [] :: part :: parts else (c :: part) :: parts
    | [] => [[]]

/-- A step of a pointer with its escapes undone: `~1` is a slash and `~0` a tilde. -/
def unescapeStep : List Char → List Char
  | '~' :: '1' :: rest => '/' :: unescapeStep rest
  | '~' :: '0' :: rest => '~' :: unescapeStep rest
  | c :: rest => c :: unescapeStep rest
  | [] => []

/-- An array index: digits without a sign and without a zero in front of others. -/
def readIndex? (s : List Char) : Option Nat :=
  match s with
  | '+' :: _ => none
  | '0' :: _ :: _ => none
  | _ => (readNatural max64 s).toOption

/-- One step of a pointer into a value. -/
def step? (value : Json) (name : List Char) : Option Json :=
  match value with
  | .object fields => Table.lookup? (String.ofList name) fields
  | .array items => (readIndex? name).bind fun i => items[i]?
  | _ => none

/-- The part of a value that a pointer names; a pointer is empty or starts with a slash. -/
def pointer? (value : Json) (pointer : String) : Option Json :=
  match pointer.toList with
  | [] => some value
  | '/' :: rest => ((splitAtChar '/' rest).map unescapeStep).foldlM step? value
  | _ => none

end Json

end Intake
