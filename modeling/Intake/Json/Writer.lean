/-
Module: Intake.Json.Writer
Purpose: Writes JSON values without white space.
Main exports: Json.numberText, Json.quoted, Json.render, Json.text

A double is written with the fewest digits that read back: positionally while its decimal exponent is
at least -5 and below 16, with a fraction even if it is whole, and with a signed exponent otherwise.
-/
import Intake.Json.Basic
import Intake.Number.Decimal

namespace Intake

namespace Json

/-- The decimal exponents that are written positionally. -/
def leastPositional : Int := -5
def positionalLimit : Int := 16

/-- Digits with a point behind the first of them, if there are more. -/
def pointed : List Char → List Char
  | [] => []
  | [c] => [c]
  | c :: rest => c :: '.' :: rest

def magnitudeText (units : Nat) : List Char :=
  let d := Binary64.shortest units
  let digits := Nat.toDigits 10 d.digits
  let exponent := (digits.length : Int) - 1 + d.exponent
  if units = 0 then "0.0".toList
  else if leastPositional ≤ exponent ∧ exponent < positionalLimit then
    Binary64.positional d ++ (if 0 ≤ d.exponent then ".0".toList else [])
  else
    let sign := if exponent < 0 then '-' else '+'
    pointed digits ++ 'e' :: sign :: Nat.toDigits 10 exponent.natAbs

/-- A number; JSON has no text for infinities and NaN, which count as null. -/
def numberText : Number → List Char
  | .integer n => (if n < 0 then ['-'] else []) ++ Nat.toDigits 10 n.natAbs
  | .double (.finite negative units) => (if negative then ['-'] else []) ++ magnitudeText units
  | .double _ => "null".toList

def hexDigit (n : Nat) : Char := if n < 10 then Char.ofNat (48 + n) else Char.ofNat (87 + n)

/-- A character inside a string: quotes, backslashes and controls are escaped. -/
def escaped (c : Char) : List Char :=
  if c = '"' then ['\\', '"']
  else if c = '\\' then ['\\', '\\']
  else if c = '\x08' then ['\\', 'b']
  else if c = '\x0c' then ['\\', 'f']
  else if c = '\n' then ['\\', 'n']
  else if c = '\r' then ['\\', 'r']
  else if c = '\t' then ['\\', 't']
  else if c.toNat < 0x20 then
    ['\\', 'u', '0', '0', hexDigit (c.toNat / 16), hexDigit (c.toNat % 16)]
  else [c]

def quoted (s : String) : List Char := '"' :: s.toList.flatMap escaped ++ ['"']

mutual

/-- The text of a value. -/
def render : Json → List Char
  | .null => "null".toList
  | .bool true => "true".toList
  | .bool false => "false".toList
  | .number n => numberText n
  | .string s => quoted s
  | .array [] => ['[', ']']
  | .array (x :: xs) => '[' :: render x ++ renderItems xs
  | .object [] => ['\x7b', '\x7d']
  | .object ((k, x) :: xs) => '\x7b' :: quoted k ++ ':' :: render x ++ renderFields xs

/-- Further items of an array and its closing bracket. -/
def renderItems : List Json → List Char
  | [] => [']']
  | x :: xs => ',' :: render x ++ renderItems xs

/-- Further fields of an object and its closing brace. -/
def renderFields : List (String × Json) → List Char
  | [] => ['\x7d']
  | (k, x) :: xs => ',' :: quoted k ++ ':' :: render x ++ renderFields xs

end

def text (value : Json) : String := String.ofList (render value)

end Json

end Intake
