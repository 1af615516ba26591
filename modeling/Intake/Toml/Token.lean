/-
Module: Intake.Toml.Token
Purpose: The values of TOML that are written as one word: numbers, truth values, dates and times.
Main exports: Toml.isWordChar, Toml.readInteger?, Toml.readFloat?, Toml.isDateTime, Toml.readWord?
-/
import Intake.Toml.Basic
import Intake.Number.Decimal

namespace Intake

namespace Toml

/-- The characters of numbers, truth values, dates and times. -/
def isWordChar (c : Char) : Bool :=
  c.isAlphanum || c == '+' || c == '-' || c == '.' || c == '_' || c == ':'

/-! ### Digits -/

/-- Digits of a class with single underscores between them, at least one digit; gives the digits. -/
def groupedDigits? (isClass : Char → Bool) : List Char → Option (List Char)
  | [] => none
  | [c] => if isClass c then some [c] else none
  | c :: '_' :: rest => if isClass c then (groupedDigits? isClass rest).map (c :: ·) else none
  | c :: rest => if isClass c then (groupedDigits? isClass rest).map (c :: ·) else none

/-- Decimal digits without a zero in front of others. -/
def wholeDigits? (s : List Char) : Option (List Char) :=
  match groupedDigits? isDigit s with
  | some ('0' :: _ :: _) => none
  | digits => digits

/-- The value of a digit in bases up to sixteen. -/
def baseDigit? (base : Nat) (c : Char) : Option Nat :=
  let value :=
    if '0' ≤ c ∧ c ≤ '9' then some (c.toNat - 48)
    else if 'a' ≤ c ∧ c ≤ 'f' then some (c.toNat - 87)
    else if 'A' ≤ c ∧ c ≤ 'F' then some (c.toNat - 55)
    else none
  value.filter (· < base)

/-- The number of digits in a base. -/
def baseValue (base : Nat) (digits : List Char) : Nat :=
  digits.foldl (fun n c => base * n + (baseDigit? base c).getD 0) 0

/-! ### Integers and floats -/

/-- An integer within 64 signed binary digits. -/
def bounded? (n : Int) : Option Int :=
  if -0x8000_0000_0000_0000 ≤ n ∧ n < 0x8000_0000_0000_0000 then some n else none

/-- Digits in the base that a mark in front of them names. -/
def readBased? (base : Nat) (s : List Char) : Option Int :=
  (groupedDigits? (fun c => (baseDigit? base c).isSome) s).bind fun digits =>
    bounded? (baseValue base digits)

def readInteger? (s : List Char) : Option Int :=
  match s with
  | '0' :: 'x' :: rest => readBased? 16 rest
  | '0' :: 'o' :: rest => readBased? 8 rest
  | '0' :: 'b' :: rest => readBased? 2 rest
  | _ =>
    let (negative, rest) := Binary64.spanSign s
    (wholeDigits? rest).bind fun digits =>
      let n : Int := appendDigits 0 digits
      bounded? (if negative then -n else n)

/-- An exponent: a letter, a sign and digits, where zeros may come first. -/
def readExponent? : List Char → Option Int
  | [] => none
  | letter :: rest =>
    if letter = 'e' ∨ letter = 'E' then
      let (negative, rest) := Binary64.spanSign rest
      (groupedDigits? isDigit rest).map fun digits =>
        let n : Int := appendDigits 0 digits
        if negative then -n else n
    else none

def isExponentLetter (c : Char) : Bool := c == 'e' || c == 'E'

/-- What follows the whole digits of a float: a fraction, an exponent or both. -/
def readFractionExponent? (s : List Char) : Option (List Char × Int) :=
  match s with
  | '.' :: rest =>
    let exponent := rest.dropWhile (!isExponentLetter ·)
    (groupedDigits? isDigit (rest.takeWhile (!isExponentLetter ·))).bind fun fraction =>
      if exponent = [] then some (fraction, 0) else (readExponent? exponent).map (fraction, ·)
  | _ => (readExponent? s).map ([], ·)

/-- A float, which has a fraction or an exponent.  One too large is refused if it is positive and
infinite if it is negative. -/
def readFloat? (s : List Char) : Option Binary64 :=
  let (negative, rest) := Binary64.spanSign s
  if rest = "inf".toList then some (.infinite negative)
  else if rest = "nan".toList then some .nan
  else
    let isWhole (c : Char) : Bool := isDigit c || c == '_'
    match wholeDigits? (rest.takeWhile isWhole), readFractionExponent? (rest.dropWhile isWhole) with
    | some whole, some (fraction, exponent) =>
      let digits := appendDigits (appendDigits 0 whole) fraction
      let x := Decimal.toBinary64 negative ⟨digits, exponent - (fraction.length : Int)⟩
      if x = .infinite false then none else some x
    | _, _ => none

/-! ### Dates and times

Dates are told from numbers by their form.  They are values of documents, but none that a configuration has a
use for. -/

/-- A number of exactly two digits within bounds. -/
def twoDigits? (least greatest : Nat) (a b : Char) : Option Nat :=
  match digitValue? a, digitValue? b with
  | some a, some b =>
    let n := 10 * a + b
    if least ≤ n ∧ n ≤ greatest then some n else none
  | _, _ => none

def isLeapYear (year : Nat) : Bool := year % 4 == 0 && (year % 100 != 0 || year % 400 == 0)

def daysInMonth (year month : Nat) : Nat :=
  if month = 2 then (if isLeapYear year then 29 else 28)
  else if month = 4 ∨ month = 6 ∨ month = 9 ∨ month = 11 then 30
  else 31

/-- The text behind a date. -/
def afterDate? : List Char → Option (List Char)
  | y1 :: y2 :: y3 :: y4 :: '-' :: m1 :: m2 :: '-' :: d1 :: d2 :: rest =>
    if [y1, y2, y3, y4].all isDigit then
      let year := appendDigits 0 [y1, y2, y3, y4]
      match twoDigits? 1 12 m1 m2, twoDigits? 1 31 d1 d2 with
      | some month, some day => if day ≤ daysInMonth year month then some rest else none
      | _, _ => none
    else none
  | _ => none

/-- The text behind a time of day with seconds and perhaps a fraction of them. -/
def afterTime? : List Char → Option (List Char)
  | h1 :: h2 :: ':' :: m1 :: m2 :: ':' :: s1 :: s2 :: rest =>
    match twoDigits? 0 23 h1 h2, twoDigits? 0 59 m1 m2, twoDigits? 0 60 s1 s2 with
    | some _, some _, some _ =>
      match rest with
      | '.' :: fraction =>
        if (fraction.takeWhile isDigit) = [] then none else some (fraction.dropWhile isDigit)
      | _ => some rest
    | _, _, _ => none
  | _ => none

/-- Whether a text is the distance from universal time. -/
def isOffset : List Char → Bool
  | ['Z'] => true
  | ['z'] => true
  | [sign, h1, h2, ':', m1, m2] =>
    (sign == '+' || sign == '-') && (twoDigits? 0 23 h1 h2).isSome &&
      (twoDigits? 0 59 m1 m2).isSome
  | _ => false

/-- Whether a text is a time of day, with or without a distance. -/
def isTime (allowOffset : Bool) (s : List Char) : Bool :=
  match afterTime? s with
  | some [] => true
  | some rest => allowOffset && isOffset rest
  | none => false

def isDate (s : List Char) : Bool := afterDate? s == some []

/-- Whether a word is a date, a time, or both with a letter between them. -/
def isDateTime (s : List Char) : Bool :=
  match afterDate? s with
  | some [] => true
  | some ('T' :: time) => isTime true time
  | some ('t' :: time) => isTime true time
  | some _ => false
  | none => isTime false s

/-! ### Words -/

/-- The value of a word. -/
def readWord? (s : List Char) : Option Toml :=
  if s = "true".toList then some (.boolean true)
  else if s = "false".toList then some (.boolean false)
  else if isDateTime s then some .dateTime
  else
    match readFloat? s with
    | some x => some (.float x)
    | none => (readInteger? s).map .integer

end Toml

end Intake
