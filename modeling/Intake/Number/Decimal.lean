/-
Module: Intake.Number.Decimal
Purpose: Doubles and decimal text: the nearest double to a decimal, the fewest digits that read back,
  and the reader of decimal texts.
Main exports: Decimal, Decimal.toBinary64, Binary64.shortest, Binary64.plainText, Binary64.read
-/
import Intake.Number.Natural
import Intake.Number.Binary64

namespace Intake

/-- The number `digits * 10 ^ exponent`. -/
structure Decimal where
  digits : Nat
  exponent : Int
  deriving Repr, DecidableEq

namespace Decimal

/-- How many decimal digits a number has; zero has one. -/
def digitCount (n : Nat) : Nat := (Nat.toDigits 10 n).length

/-- Powers of ten beyond which every number with a digit in front of them overflows or vanishes. -/
def greatestMagnitude : Int := 400
def leastMagnitude : Int := -400

/-- The double nearest to `± d`.  Exponents far outside the range of doubles are answered without
computing their powers. -/
def toBinary64 (negative : Bool) (d : Decimal) : Binary64 :=
  let magnitude := (digitCount d.digits : Int) + d.exponent
  if d.digits = 0 then .finite negative 0
  else if greatestMagnitude < magnitude then .infinite negative
  else if magnitude < leastMagnitude then .finite negative 0
  else if 0 ≤ d.exponent then .ofRatio negative (d.digits * Nat.pow 10 d.exponent.toNat) 1
  else .ofRatio negative d.digits (Nat.pow 10 (-d.exponent).toNat)

end Decimal

namespace Binary64

/-- The position of the decimal point of a positive magnitude: the `k` with
`10 ^ (k - 1) ≤ units / 2 ^ 1074 < 10 ^ k`.  The least magnitude is above `10 ^ (-324)`, so shifting by
330 places leaves a digit in front of the point. -/
def decimalPoint (units : Nat) : Int :=
  (Decimal.digitCount (units * Nat.pow 10 330 / unitsPerOne) : Int) - 330

/-- A magnitude as a quotient with its last digit at `10 ^ exponent`. -/
def scaledRatio (units : Nat) (exponent : Int) : Nat × Nat :=
  if 0 ≤ exponent then (units, unitsPerOne * Nat.pow 10 exponent.toNat)
  else (units * Nat.pow 10 (-exponent).toNat, unitsPerOne)

/-- The decimal with its last digit at `10 ^ exponent` that reads back as the magnitude: of the two
neighbours of the magnitude on that grid the nearer one, if it reads back, else the other. -/
def onGrid? (units : Nat) (exponent : Int) : Option Decimal :=
  let (num, den) := scaledRatio units exponent
  let q := num / den
  let r := num % den
  let readsBack (digits : Nat) : Bool :=
    Decimal.toBinary64 false ⟨digits, exponent⟩ == .finite false units
  let (near, far) := if 2 * r < den ∨ (2 * r = den ∧ q % 2 = 0) then (q, q + 1) else (q + 1, q)
  if readsBack near then some ⟨near, exponent⟩
  else if readsBack far then some ⟨far, exponent⟩
  else none

/-- Without the zeros at its end. -/
def stripZeros : Nat → Decimal → Decimal
  | 0, d => d
  | fuel + 1, d =>
    if d.digits ≠ 0 ∧ d.digits % 10 = 0 then stripZeros fuel ⟨d.digits / 10, d.exponent + 1⟩ else d

/-- The exact decimal value of a magnitude: a denominator of `2 ^ 1074` becomes one of `10 ^ 1074`. -/
def exactDecimal (units : Nat) : Decimal := ⟨units * Nat.pow 5 1074, -1074⟩

/-- The decimal with the fewest digits that reads back as the magnitude, and the nearest of those.
Seventeen digits always suffice; the exact value closes the search. -/
def shortest (units : Nat) : Decimal :=
  if units = 0 then ⟨0, 0⟩
  else
    let point := decimalPoint units
    let found := (List.range 17).findSome? fun n => onGrid? units (point - (n + 1 : Nat))
    let d := found.getD (exactDecimal units)
    stripZeros (Decimal.digitCount d.digits) d

/-- A decimal without an exponent: zeros fill the places up to the point, and a fraction is written
only where there is one. -/
def positional (d : Decimal) : List Char :=
  let ds := Nat.toDigits 10 d.digits
  if 0 ≤ d.exponent then ds ++ List.replicate d.exponent.toNat '0'
  else
    let places := (-d.exponent).toNat
    if places < ds.length then
      ds.take (ds.length - places) ++ '.' :: ds.drop (ds.length - places)
    else '0' :: '.' :: (List.replicate (places - ds.length) '0' ++ ds)

def signText (negative : Bool) : String := if negative then "-" else ""

/-- The plain text of a double: the fewest digits that read back, never an exponent, and no point in a
whole number. -/
def plainText : Binary64 → String
  | .nan => "NaN"
  | .infinite negative => signText negative ++ "inf"
  | .finite negative units => signText negative ++ String.ofList (positional (shortest units))

/-- Why a text is no decimal number. -/
inductive ReadError where
  | empty
  | invalid
  deriving Repr, DecidableEq

def ReadError.message : ReadError → String
  | .empty => "cannot parse float from empty string"
  | .invalid => "invalid float literal"

/-- The digits at the start of a text, and the rest of it. -/
def spanDigits (s : List Char) : List Char × List Char := (s.takeWhile isDigit, s.dropWhile isDigit)

/-- A sign in front of a text; none counts as plus. -/
def spanSign : List Char → Bool × List Char
  | '-' :: rest => (true, rest)
  | '+' :: rest => (false, rest)
  | s => (false, s)

/-- An exponent that ends the text: nothing, or a letter E, a sign and at least one digit. -/
def readExponent? : List Char → Option Int
  | [] => some 0
  | c :: rest =>
    if c = 'e' ∨ c = 'E' then
      let (negative, digits) := spanSign rest
      if digits ≠ [] ∧ digits.all isDigit then
        let magnitude : Int := appendDigits 0 digits
        some (if negative then -magnitude else magnitude)
      else none
    else none

/-- An unsigned decimal: digits around an optional point, at least one on some side of it, and an
optional exponent. -/
def readDecimal? (s : List Char) : Option Decimal :=
  let (whole, afterWhole) := spanDigits s
  let (fraction, afterFraction) :=
    match afterWhole with
    | '.' :: rest => spanDigits rest
    | rest => ([], rest)
  if whole = [] ∧ fraction = [] then none
  else
    (readExponent? afterFraction).map fun exponent =>
      ⟨appendDigits (appendDigits 0 whole) fraction, exponent - (fraction.length : Int)⟩

/-- The lower case of an ASCII letter; all else is unchanged. -/
def asciiLower (s : List Char) : List Char := s.map Char.toLower

/-- Reads a double: an optional sign, then a decimal or one of the words `inf`, `infinity` and `nan`
in any case. -/
def read (s : List Char) : Except ReadError Binary64 :=
  if s = [] then .error .empty
  else
    let (negative, body) := spanSign s
    let word := asciiLower body
    if word = "inf".toList ∨ word = "infinity".toList then .ok (.infinite negative)
    else if word = "nan".toList then .ok .nan
    else
      match readDecimal? body with
      | some d => .ok (d.toBinary64 negative)
      | none => .error .invalid

example : (ofRatio false 13 3).plainText = "4.333333333333333" := by decide +kernel

example : (add (ofRatio false 1 10) (ofRatio false 2 10)).plainText = "0.30000000000000004" := by
  decide +kernel

end Binary64

end Intake
