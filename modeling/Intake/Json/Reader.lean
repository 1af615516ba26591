/-
Module: Intake.Json.Reader
Purpose: Reads JSON texts.
Main exports: Json.readNumber?, Json.readString?, Json.readWritten?, Json.read?

A text is one value with white space around it.  It is first read as it is written, and then given its
value.  A number outside 64 binary digits keeps the leading digits that fit and is scaled by powers of
ten, one rounding per scaling.
-/
import Intake.Json.Written

namespace Intake

namespace Json

def isSpace (c : Char) : Bool := c == ' ' || c == '\n' || c == '\t' || c == '\r'

def skipSpace (s : List Char) : List Char := s.dropWhile isSpace

/-! ### Numbers -/

/-- The leading digits of a number as far as 64 binary digits hold them, and the power of ten that the
digits left out or behind the point amount to. -/
structure Scan where
  significand : Nat
  exponent : Int
  full : Bool
  deriving Repr

/-- Digits in front of the point: once one does not fit, it and all further ones count as zeros. -/
def Scan.whole (scan : Scan) : List Char → Scan
  | [] => scan
  | c :: rest =>
    match digitValue? c with
    | none => scan
    | some d =>
      if !scan.full && decide (10 * scan.significand + d ≤ max64) then
        Scan.whole { scan with significand := 10 * scan.significand + d } rest
      else Scan.whole { scan with exponent := scan.exponent + 1, full := true } rest

/-- Digits behind the point: once one does not fit, it and all further ones are dropped. -/
def Scan.fraction (scan : Scan) : List Char → Scan
  | [] => scan
  | c :: rest =>
    match digitValue? c with
    | none => scan
    | some d =>
      if 10 * scan.significand + d ≤ max64 then
        Scan.fraction
          { scan with significand := 10 * scan.significand + d, exponent := scan.exponent - 1 } rest
      else scan

/-- The greatest power of ten used in one scaling. -/
def greatestPower : Nat := 308

def powerOfTen (n : Nat) : Binary64 := .ofNat (Nat.pow 10 n)

/-- Scales down in portions of the greatest power, then by the remaining one; scales up only once. -/
def scale : Nat → Binary64 → Int → Option Binary64
  | 0, _, _ => none
  | fuel + 1, x, exponent =>
    if exponent.natAbs ≤ greatestPower then
      if 0 ≤ exponent then
        let y := Binary64.mul x (powerOfTen exponent.natAbs)
        if y.isFinite then some y else none
      else some (Binary64.div x (powerOfTen exponent.natAbs))
    else if x.isZero then some x
    else if 0 ≤ exponent then none
    else scale fuel (Binary64.div x (powerOfTen greatestPower)) (exponent + greatestPower)

/-- The double of a significand and a power of ten.  Dividing three times by the greatest power leaves
zero, so four rounds suffice. -/
def scaled? (negative : Bool) (significand : Nat) (exponent : Int) : Option Number :=
  (scale 8 (.ofNat significand) exponent).map fun x => .double (if negative then x.neg else x)

/-- The greatest exponent that is read digit by digit. -/
def greatestExponent : Nat := 0x7fff_ffff

/-- The exponent sum kept within 32 binary digits. -/
def clampExponent (n : Int) : Int := max (-0x8000_0000) (min 0x7fff_ffff n)

/-- An exponent behind its letter, applied to what was scanned. -/
def readScaled? (negative : Bool) (scan : Scan) (s : List Char) :
    Option (Option Number × List Char) :=
  let (down, s) :=
    match s with
    | '-' :: rest => (true, rest)
    | '+' :: rest => (false, rest)
    | _ => (false, s)
  let digits := s.takeWhile isDigit
  let rest := s.dropWhile isDigit
  if digits = [] then none
  else
    let exponent := appendDigits 0 digits
    if greatestExponent < exponent then
      if !down && scan.significand != 0 then some (none, rest)
      else some (some (.double (.finite negative 0)), rest)
    else
      let total := clampExponent (scan.exponent + (if down then -(exponent : Int) else exponent))
      some (scaled? negative scan.significand total, rest)

/-- What follows the digits: an exponent, or nothing that belongs to the number. -/
def readExponent? (negative : Bool) (scan : Scan) :
    List Char → Option (Option Number × List Char)
  | 'e' :: rest => readScaled? negative scan rest
  | 'E' :: rest => readScaled? negative scan rest
  | rest => some (scaled? negative scan.significand scan.exponent, rest)

/-- The number of a plain run of digits that fits. -/
def plainNumber (negative : Bool) (significand : Nat) : Number :=
  if !negative then .integer significand
  else if significand = 0 then .double (.finite true 0)
  else if significand ≤ maxSigned64 + 1 then .integer (-significand)
  else .double (Binary64.ofNat significand).neg

/-- A number behind its sign. -/
def readMagnitude? (negative : Bool) (s : List Char) : Option (Option Number × List Char) :=
  let digits := s.takeWhile isDigit
  let rest := s.dropWhile isDigit
  if digits = [] then none
  else if digits.head? = some '0' ∧ digits.length ≠ 1 then none
  else
    let scan := Scan.whole ⟨0, 0, false⟩ digits
    match rest with
    | '.' :: rest =>
      let fraction := rest.takeWhile isDigit
      let rest := rest.dropWhile isDigit
      if fraction = [] then none
      else readExponent? negative (scan.fraction fraction) rest
    | 'e' :: _ => readExponent? negative scan rest
    | 'E' :: _ => readExponent? negative scan rest
    | _ =>
      if scan.full then readExponent? negative scan rest
      else some (some (plainNumber negative scan.significand), rest)

/-- A number at the start of a text; one too large for a double has a place in the text but no
value. -/
def readNumber? : List Char → Option (Option Number × List Char)
  | '-' :: rest => readMagnitude? true rest
  | s => readMagnitude? false s

/-! ### Strings -/

/-- The value of a hexadecimal digit in either case. -/
def hexValue? (c : Char) : Option Nat :=
  if '0' ≤ c ∧ c ≤ '9' then some (c.toNat - '0'.toNat)
  else if 'a' ≤ c ∧ c ≤ 'f' then some (c.toNat - 'a'.toNat + 10)
  else if 'A' ≤ c ∧ c ≤ 'F' then some (c.toNat - 'A'.toNat + 10)
  else none

/-- The number of four hexadecimal digits. -/
def hexQuad? (a b c d : Char) : Option Nat := do
  let a ← hexValue? a
  let b ← hexValue? b
  let c ← hexValue? c
  let d ← hexValue? d
  return ((a * 16 + b) * 16 + c) * 16 + d

def isHighSurrogate (n : Nat) : Bool := 0xD800 ≤ n && n ≤ 0xDBFF
def isLowSurrogate (n : Nat) : Bool := 0xDC00 ≤ n && n ≤ 0xDFFF

/-- The character of a pair of surrogates. -/
def joinSurrogates (high low : Nat) : Char :=
  Char.ofNat (0x10000 + (high - 0xD800) * 0x400 + (low - 0xDC00))

/-- The character that a letter behind a backslash stands for. -/
def shortEscape? : Char → Option Char
  | '"' => some '"'
  | '\\' => some '\\'
  | '/' => some '/'
  | 'b' => some '\x08'
  | 'f' => some '\x0c'
  | 'n' => some '\n'
  | 'r' => some '\r'
  | 't' => some '\t'
  | _ => none

/-- The units of a string behind its opening quote, and the text behind its closing one.  A unit is a
character number or, from an escape, half of a surrogate pair. -/
def readUnits? : List Char → Option (List Nat × List Char)
  | [] => none
  | '"' :: rest => some ([], rest)
  | '\\' :: 'u' :: a :: b :: c :: d :: rest =>
    match hexQuad? a b c d with
    | some n => (readUnits? rest).map fun r => (n :: r.1, r.2)
    | none => none
  | '\\' :: c :: rest =>
    match shortEscape? c with
    | some e => (readUnits? rest).map fun r => (e.toNat :: r.1, r.2)
    | none => none
  | c :: rest =>
    if c == '\\' || decide (c.toNat < 0x20) then none
    else (readUnits? rest).map fun r => (c.toNat :: r.1, r.2)

/-- The characters of units: surrogates stand in pairs, the high one first. -/
def joinUnits? : List Nat → Option (List Char)
  | [] => some []
  | n :: rest =>
    if isHighSurrogate n then
      match rest with
      | m :: rest =>
        if isLowSurrogate m then (joinUnits? rest).map (joinSurrogates n m :: ·) else none
      | [] => none
    else if isLowSurrogate n then none
    else (joinUnits? rest).map (Char.ofNat n :: ·)

/-- A string behind its opening quote; one with half of a surrogate pair has a place in the text but
no value. -/
def readString? (s : List Char) : Option (Option String × List Char) :=
  (readUnits? s).map fun (units, rest) => ((joinUnits? units).map String.ofList, rest)

/-! ### Texts -/

/-- The rest of a text behind a word. -/
def afterWord? : List Char → List Char → Option (List Char)
  | [], s => some s
  | w :: word, c :: s => if w = c then afterWord? word s else none
  | _ :: _, [] => none

mutual

/-- A value at the start of a text, behind white space; `fuel` is more than twice the number of
characters. -/
def readSyntax? : (fuel : Nat) → List Char → Option (Written × List Char)
  | 0, _ => none
  | fuel + 1, s =>
    match skipSpace s with
    | '"' :: rest => (readString? rest).map fun (text, rest) => (.string text, rest)
    | '[' :: rest =>
      match skipSpace rest with
      | ']' :: rest => some (.array [], rest)
      | _ => (readItems? fuel rest).map fun (items, rest) => (.array items, rest)
    | '\x7b' :: rest =>
      match skipSpace rest with
      | '\x7d' :: rest => some (.object [], rest)
      | _ => (readFields? fuel rest).map fun (fields, rest) => (.object fields, rest)
    | 'n' :: rest => (afterWord? "ull".toList rest).map (.null, ·)
    | 't' :: rest => (afterWord? "rue".toList rest).map (.bool true, ·)
    | 'f' :: rest => (afterWord? "alse".toList rest).map (.bool false, ·)
    | other => (readNumber? other).map fun (n, rest) => (.number n, rest)

/-- The items of an array up to its closing bracket. -/
def readItems? : (fuel : Nat) → List Char → Option (List Written × List Char)
  | 0, _ => none
  | fuel + 1, s =>
    match readSyntax? fuel s with
    | none => none
    | some (item, rest) =>
      match skipSpace rest with
      | ',' :: rest => (readItems? fuel rest).map fun (items, rest) => (item :: items, rest)
      | ']' :: rest => some ([item], rest)
      | _ => none

/-- The fields of an object up to its closing brace. -/
def readFields? :
    (fuel : Nat) → List Char → Option (List (Option String × Written) × List Char)
  | 0, _ => none
  | fuel + 1, s =>
    match skipSpace s with
    | '"' :: rest =>
      match readString? rest with
      | none => none
      | some (name, rest) =>
        match skipSpace rest with
        | ':' :: rest =>
          match readSyntax? fuel rest with
          | none => none
          | some (value, rest) =>
            match skipSpace rest with
            | ',' :: rest =>
              (readFields? fuel rest).map fun (fields, rest) => ((name, value) :: fields, rest)
            | '\x7d' :: rest => some ([(name, value)], rest)
            | _ => none
        | _ => none
    | _ => none

end

/-- The text of a whole document as it is written. -/
def readWritten? (s : List Char) : Option Written :=
  match readSyntax? (2 * s.length + 2) s with
  | some (written, rest) => if skipSpace rest = [] then some written else none
  | none => none

def readChars? (s : List Char) : Option Json := (readWritten? s).bind (·.value? depthLimit)

/-- The value that a whole text is. -/
def read? (s : String) : Option Json := readChars? s.toList

example : (read? "[1, -0, 18446744073709551616, \"\\ud83d\\ude00\"]").isSome = true := by
  decide +kernel

example : (read? "\"\\ud83d\"").isNone = true := by decide +kernel

end Json

end Intake
