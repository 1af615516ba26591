/-
Module: Intake.Number.Natural
Purpose: Decimal text of natural numbers, and reading it back within a limit.
Main exports: digitValue?, IntegerError, readNatural
-/

namespace Intake

/-- The value of an ASCII decimal digit. -/
def digitValue? (c : Char) : Option Nat :=
  if '0' ≤ c ∧ c ≤ '9' then some (c.toNat - '0'.toNat) else none

/-- Whether a character is an ASCII decimal digit. -/
def isDigit (c : Char) : Bool := (digitValue? c).isSome

/-- The digits of `ds` appended to the decimal number `acc`; characters other than digits are
skipped, so callers check the text first. -/
def appendDigits (acc : Nat) (ds : List Char) : Nat :=
  ds.foldl (fun n c => match digitValue? c with | some d => 10 * n + d | none => n) acc

/-- Why a text is no natural number within the limit. -/
inductive IntegerError where
  | empty
  | invalidDigit
  | tooLarge
  deriving Repr, DecidableEq

def IntegerError.message : IntegerError → String
  | .empty => "cannot parse integer from empty string"
  | .invalidDigit => "invalid digit found in string"
  | .tooLarge => "number too large to fit in target type"

/-- Reads digits from left to right onto `acc`; the first character that is no digit, or that takes
the number above `limit`, decides the error. -/
def readDigits (limit acc : Nat) : List Char → Except IntegerError Nat
  | [] => .ok acc
  | c :: rest =>
    match digitValue? c with
    | none => .error .invalidDigit
    | some d =>
      if 10 * acc + d ≤ limit then readDigits limit (10 * acc + d) rest else .error .tooLarge

/-- A natural number of at most `limit`: digits, with one plus sign allowed in front. -/
def readNatural (limit : Nat) : List Char → Except IntegerError Nat
  | [] => .error .empty
  | ['+'] => .error .invalidDigit
  | '+' :: digits => readDigits limit 0 digits
  | digits => readDigits limit 0 digits

/-- The greatest number of 16, 32 and 64 binary digits, and the greatest signed one of 64. -/
def max16 : Nat := 0xffff
def max32 : Nat := 0xffff_ffff
def max64 : Nat := 0xffff_ffff_ffff_ffff
def maxSigned64 : Nat := 0x7fff_ffff_ffff_ffff

/-- A number padded with zeros on the left to `width` digits. -/
def padded (width n : Nat) : String :=
  let digits := Nat.toDigits 10 n
  String.ofList (List.replicate (width - digits.length) '0' ++ digits)

example : readNatural max64 "18446744073709551615".toList = .ok max64 := by rfl

example : readNatural max64 "18446744073709551616".toList = .error .tooLarge := by rfl

end Intake
