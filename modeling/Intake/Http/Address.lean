/-
Module: Intake.Http.Address
Purpose: Recognises socket addresses: an address of version 4 or 6 and a port.
Main exports: Address.afterV4?, Address.afterV6?, Address.isSocketAddress
-/
import Intake.Number.Natural
import Intake.Json.Reader

namespace Intake

namespace Address

/-- The text behind a number in decimal digits.  `width` limits their count, `limit` the number, and a
zero in front of other digits is only allowed where `zeroFirst` says so. -/
def afterDecimal? (width : Option Nat) (zeroFirst : Bool) (limit : Nat) (s : List Char) :
    Option (List Char) :=
  let digits := s.takeWhile isDigit
  let rest := s.dropWhile isDigit
  let wide :=
    match width with
    | some w => decide (w < digits.length)
    | none => false
  if digits.isEmpty || wide then none
  else if !zeroFirst && digits.head? == some '0' && decide (1 < digits.length) then none
  else if appendDigits 0 digits ≤ limit then some rest
  else none

/-- The text behind one to four hexadecimal digits. -/
def afterHexGroup? (s : List Char) : Option (List Char) :=
  let isHex (c : Char) : Bool := (Json.hexValue? c).isSome
  let digits := s.takeWhile isHex
  if digits = [] ∨ 4 < digits.length then none else some (s.dropWhile isHex)

/-- The text behind a given character. -/
def afterChar? (c : Char) : List Char → Option (List Char)
  | d :: rest => if d = c then some rest else none
  | [] => none

/-- The text behind a number from 0 to 255. -/
def afterByte? (s : List Char) : Option (List Char) := afterDecimal? (some 3) false 255 s

/-- The text behind four bytes with points between them. -/
def afterV4? (s : List Char) : Option (List Char) := do
  let s ← afterByte? s
  let s ← afterChar? '.' s
  let s ← afterByte? s
  let s ← afterChar? '.' s
  let s ← afterByte? s
  let s ← afterChar? '.' s
  afterByte? s

/-- Groups with colons between them, at most `room` of them, the first of the text being number
`index`.  The last two may be written as an address of version 4.  Gives how many groups were read,
whether they end in such an address, and the text behind them. -/
def readGroups : (room index : Nat) → List Char → Nat × Bool × List Char
  | 0, _, s => (0, false, s)
  | room + 1, index, s =>
    let start := if index = 0 then some s else afterChar? ':' s
    let short := if room = 0 then none else start.bind afterV4?
    match short with
    | some rest => (2, true, rest)
    | none =>
      match start.bind afterHexGroup? with
      | none => (0, false, s)
      | some rest =>
        let (count, endsShort, rest) := readGroups room (index + 1) rest
        (count + 1, endsShort, rest)

/-- The text behind an address of version 6: eight groups, or fewer with a double colon for those left
out, at least one of them. -/
def afterV6? (s : List Char) : Option (List Char) :=
  let (count, endsShort, rest) := readGroups 8 0 s
  if count = 8 then some rest
  else if endsShort then none
  else
    match rest with
    | ':' :: ':' :: rest => some (readGroups (7 - count) 0 rest).2.2
    | _ => none

/-- The text behind a colon and a port. -/
def afterPort? (s : List Char) : Option (List Char) :=
  (afterChar? ':' s).bind (afterDecimal? none true max16)

/-- The text behind an optional zone of an address of version 6. -/
def afterZone? : List Char → Option (List Char)
  | '%' :: rest => afterDecimal? none true max32 rest
  | s => some s

def afterSocketV4? (s : List Char) : Option (List Char) := (afterV4? s).bind afterPort?

def afterSocketV6? (s : List Char) : Option (List Char) := do
  let s ← afterChar? '[' s
  let s ← afterV6? s
  let s ← afterZone? s
  let s ← afterChar? ']' s
  afterPort? s

/-- Whether a text is a socket address. -/
def isSocketAddress (s : String) : Bool :=
  match (afterSocketV4? s.toList).or (afterSocketV6? s.toList) with
  | some [] => true
  | _ => false

end Address

end Intake
