/-
Module: Intake.Json.Written
Purpose: JSON texts as they are written, before they are given a value.
Main exports: Json.Written, Json.Written.value?, Json.depthLimit

A text can be well formed without having a value: it may hold a number too large for a double, a string
with half of a surrogate pair, or too many nested arrays and objects.  Such parts matter only where
they are looked at.  The fields of an object stand in the order of the text, repeated names included.
-/
import Intake.Json.Basic

namespace Intake

namespace Json

/-- A well formed text; numbers and strings without a value are `none`. -/
inductive Written where
  | null
  | bool (b : Bool)
  | number (n : Option Number)
  | string (s : Option String)
  | array (items : List Written)
  | object (fields : List (Option String × Written))
  deriving Repr, Inhabited

/-- How many arrays and objects may be nested in a value. -/
def depthLimit : Nat := 127

namespace Written

mutual

/-- The value of a text, if every part has one and at most `depth` levels are nested.  Of several
fields of one name the last counts. -/
def value? (depth : Nat) : Written → Option Json
  | .null => some .null
  | .bool b => some (.bool b)
  | .number n => n.map .number
  | .string s => s.map .string
  | .array items =>
    match depth with
    | 0 => none
    | depth + 1 => (itemValues? depth items).map .array
  | .object fields =>
    match depth with
    | 0 => none
    | depth + 1 => (fieldValues? depth fields).map ofFields

def itemValues? (depth : Nat) : List Written → Option (List Json)
  | [] => some []
  | item :: rest =>
    match value? depth item, itemValues? depth rest with
    | some value, some values => some (value :: values)
    | _, _ => none

def fieldValues? (depth : Nat) : List (Option String × Written) → Option (List (String × Json))
  | [] => some []
  | (name, item) :: rest =>
    match name, value? depth item, fieldValues? depth rest with
    | some name, some value, some values => some ((name, value) :: values)
    | _, _, _ => none

end

end Written

end Json

end Intake
