/-
Module: Intake.Number.Binary64
Purpose: Double precision numbers as exact values, with correctly rounded arithmetic.
Main exports: roundHalfEven, Binary64, Binary64.ofRatio, Binary64.ofNat, Binary64.add, Binary64.sub,
  Binary64.mul, Binary64.div, Binary64.pow, Binary64.lt, Binary64.le

Every finite double is a whole multiple of the least positive one, so a finite value is stored as its
sign and that multiple.  Comparison is then comparison of natural numbers, and each operation is the
exact rational result followed by a single rounding.
-/

namespace Intake

/-- The whole number nearest to `num / den`; a quotient half way between two of them goes to the even
one. -/
def roundHalfEven (num den : Nat) : Nat :=
  let q := num / den
  let r := num % den
  if 2 * r < den then q
  else if den < 2 * r then q + 1
  else if q % 2 = 0 then q
  else q + 1

/-- A double precision number.  `finite negative units` is the number with that sign and the magnitude
`units / 2 ^ 1074`; the sign is kept for zero as well. -/
inductive Binary64 where
  | nan
  | infinite (negative : Bool)
  | finite (negative : Bool) (units : Nat)
  deriving Repr, DecidableEq, Inhabited

namespace Binary64

/-- One, counted in the least positive double. -/
def unitsPerOne : Nat := Nat.pow 2 1074

/-- The first magnitude too large for a finite double, `2 ^ 1024`, counted in the least positive one. -/
def overflowUnits : Nat := Nat.pow 2 2098

/-- The number of low binary digits of a magnitude that do not fit into a significand of 53 digits. -/
def excessBits (units : Nat) : Nat := Nat.log2 units - 52

/-- `num / den` units rounded to 53 significant binary digits, a tie to the even neighbour.  Below
`2 ^ 53` units every whole number is representable, which covers the subnormal range. -/
def roundUnits (num den : Nat) : Nat :=
  let s := excessBits (num / den)
  roundHalfEven num (den * Nat.pow 2 s) * Nat.pow 2 s

/-- A magnitude given in units, or infinity where it is too large. -/
def ofUnits (negative : Bool) (units : Nat) : Binary64 :=
  if units < overflowUnits then .finite negative units else .infinite negative

/-- The double nearest to `± num / den`. -/
def ofRatio (negative : Bool) (num den : Nat) : Binary64 :=
  ofUnits negative (roundUnits (num * unitsPerOne) den)

/-- The double nearest to a natural number. -/
def ofNat (n : Nat) : Binary64 := ofRatio false n 1

instance (n : Nat) : OfNat Binary64 n := ⟨ofNat n⟩

def zero : Binary64 := .finite false 0

def isFinite : Binary64 → Bool
  | .finite _ _ => true
  | _ => false

/-- Whether the sign bit is set; a NaN counts as positive here. -/
def isNegative : Binary64 → Bool
  | .finite negative _ => negative
  | .infinite negative => negative
  | .nan => false

def isZero : Binary64 → Bool
  | .finite _ 0 => true
  | _ => false

def neg : Binary64 → Binary64
  | .nan => .nan
  | .infinite negative => .infinite (!negative)
  | .finite negative units => .finite (!negative) units

/-- The exact value in units, for a finite number. -/
def signedUnits (negative : Bool) (units : Nat) : Int :=
  if negative then -(units : Int) else (units : Int)

/-- A sum rounded once.  Opposite numbers add up to positive zero, two negative zeros to negative
zero. -/
def add : Binary64 → Binary64 → Binary64
  | .nan, _ => .nan
  | _, .nan => .nan
  | .infinite a, .infinite b => if a = b then .infinite a else .nan
  | .infinite a, _ => .infinite a
  | _, .infinite b => .infinite b
  | .finite a m, .finite b n =>
    let total := signedUnits a m + signedUnits b n
    if total = 0 then .finite (a && b) 0
    else ofUnits (decide (total < 0)) (roundUnits total.natAbs 1)

def sub (x y : Binary64) : Binary64 := add x y.neg

/-- A product rounded once; zero times infinity is no number. -/
def mul : Binary64 → Binary64 → Binary64
  | .nan, _ => .nan
  | _, .nan => .nan
  | .infinite a, .infinite b => .infinite (a != b)
  | .infinite a, .finite b n => if n = 0 then .nan else .infinite (a != b)
  | .finite a m, .infinite b => if m = 0 then .nan else .infinite (a != b)
  | .finite a m, .finite b n => ofUnits (a != b) (roundUnits (m * n) unitsPerOne)

/-- A quotient rounded once; zero by zero and infinity by infinity are no numbers. -/
def div : Binary64 → Binary64 → Binary64
  | .nan, _ => .nan
  | _, .nan => .nan
  | .infinite _, .infinite _ => .nan
  | .infinite a, .finite b _ => .infinite (a != b)
  | .finite a _, .infinite b => .finite (a != b) 0
  | .finite a m, .finite b n =>
    if n = 0 then (if m = 0 then .nan else .infinite (a != b))
    else ofUnits (a != b) (roundUnits (m * unitsPerOne) n)

/-- A power with a natural exponent by repeated squaring: the base is squared once per binary digit of
the exponent and multiplied into the accumulator where the digit is one, each step rounded. -/
def powFrom (acc base : Binary64) (n : Nat) : Binary64 :=
  if h : n = 0 then acc
  else powFrom (if n % 2 = 1 then mul acc base else acc) (mul base base) (n / 2)
termination_by n
decreasing_by omega

def pow (base : Binary64) (n : Nat) : Binary64 := powFrom (ofNat 1) base n

/-- `x < y` as numbers: both zeros are equal and a NaN is below nothing. -/
def lt : Binary64 → Binary64 → Bool
  | .nan, _ => false
  | _, .nan => false
  | .infinite a, .infinite b => a && !b
  | .infinite a, .finite _ _ => a
  | .finite _ _, .infinite b => !b
  | .finite a m, .finite b n => decide (signedUnits a m < signedUnits b n)

/-- `x ≤ y` as numbers: both zeros are equal and a NaN compares with nothing. -/
def le : Binary64 → Binary64 → Bool
  | .nan, _ => false
  | _, .nan => false
  | .infinite a, .infinite b => a || !b
  | .infinite a, .finite _ _ => a
  | .finite _ _, .infinite b => !b
  | .finite a m, .finite b n => decide (signedUnits a m ≤ signedUnits b n)

/-- The greatest whole number not above a finite number that is not negative. -/
def floorNat : Binary64 → Nat
  | .finite false units => units / unitsPerOne
  | _ => 0

/-- The least whole number not below a finite number that is not negative. -/
def ceilNat : Binary64 → Nat
  | .finite false units => (units + (unitsPerOne - 1)) / unitsPerOne
  | _ => 0

/-- The part of a finite number that is not negative behind its binary point. -/
def fraction : Binary64 → Binary64
  | .finite false units => .finite false (units % unitsPerOne)
  | x => x

/-- Whether a finite number is a whole one. -/
def isWhole : Binary64 → Bool
  | .finite _ units => units % unitsPerOne == 0
  | _ => false

example : add (ofRatio false 1 10) (ofRatio false 2 10) ≠ ofRatio false 3 10 := by decide +kernel

example : pow (ofRatio false 7 4) 3 = ofRatio false 343 64 := by decide +kernel

end Binary64

end Intake
