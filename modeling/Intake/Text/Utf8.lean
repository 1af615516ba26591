/-
Module: Intake.Text.Utf8
Purpose: Bytes as UTF-8 text, with the place and the extent of the first error.
Main exports: Bytes, Utf8.encode, Utf8.Error, Utf8.decode, Bytes.text?
-/

namespace Intake

/-- A sequence of bytes. -/
abbrev Bytes := List UInt8

namespace Utf8

/-- The bytes of a text. -/
def encode (s : List Char) : Bytes := s.flatMap String.utf8EncodeChar

def bytesOf (s : String) : Bytes := encode s.toList

/-- The first place where bytes are no UTF-8: a sequence whose first `length` bytes cannot go on as
they do, or a sequence that the end of the bytes cuts short. -/
inductive Error where
  | invalid (length index : Nat)
  | incomplete (index : Nat)
  deriving Repr, DecidableEq

def Error.message : Error → String
  | .invalid length index =>
    "invalid utf-8 sequence of " ++ toString length ++ " bytes from index " ++ toString index
  | .incomplete index => "incomplete utf-8 byte sequence from index " ++ toString index

/-- Whether a byte continues a sequence. -/
def isContinuation (b : UInt8) : Bool := 0x80 ≤ b && b ≤ 0xBF

/-- Whether the second byte of a sequence of three may follow the first: overlong forms and
surrogates are refused. -/
def isSecondOfThree (first second : UInt8) : Bool :=
  if first = 0xE0 then 0xA0 ≤ second && second ≤ 0xBF
  else if first = 0xED then 0x80 ≤ second && second ≤ 0x9F
  else isContinuation second

/-- Whether the second byte of a sequence of four may follow the first: overlong forms and numbers
beyond the last character are refused. -/
def isSecondOfFour (first second : UInt8) : Bool :=
  if first = 0xF0 then 0x90 ≤ second && second ≤ 0xBF
  else if first = 0xF4 then 0x80 ≤ second && second ≤ 0x8F
  else isContinuation second

/-- The six low binary digits of a byte, appended to a number. -/
def appendSix (n : Nat) (b : UInt8) : Nat := n * 64 + b.toNat % 64

/-- Decodes bytes whose first one stands at `index`. -/
def decodeFrom (index : Nat) : Bytes → Except Error (List Char)
  | [] => .ok []
  | a :: rest =>
    if a < 0x80 then (Char.ofNat a.toNat :: ·) <$> decodeFrom (index + 1) rest
    else if 0xC2 ≤ a && a ≤ 0xDF then
      match rest with
      | [] => .error (.incomplete index)
      | b :: rest =>
        if !isContinuation b then .error (.invalid 1 index)
        else (Char.ofNat (appendSix (a.toNat % 32) b) :: ·) <$> decodeFrom (index + 2) rest
    else if 0xE0 ≤ a && a ≤ 0xEF then
      match rest with
      | [] => .error (.incomplete index)
      | b :: rest =>
        if !isSecondOfThree a b then .error (.invalid 1 index)
        else
          match rest with
          | [] => .error (.incomplete index)
          | c :: rest =>
            if !isContinuation c then .error (.invalid 2 index)
            else
              (Char.ofNat (appendSix (appendSix (a.toNat % 16) b) c) :: ·) <$>
                decodeFrom (index + 3) rest
    else if 0xF0 ≤ a && a ≤ 0xF4 then
      match rest with
      | [] => .error (.incomplete index)
      | b :: rest =>
        if !isSecondOfFour a b then .error (.invalid 1 index)
        else
          match rest with
          | [] => .error (.incomplete index)
          | c :: rest =>
            if !isContinuation c then .error (.invalid 2 index)
            else
              match rest with
              | [] => .error (.incomplete index)
              | d :: rest =>
                if !isContinuation d then .error (.invalid 3 index)
                else
                  (Char.ofNat (appendSix (appendSix (appendSix (a.toNat % 8) b) c) d) :: ·) <$>
                    decodeFrom (index + 4) rest
    else .error (.invalid 1 index)

/-- The text of bytes, or the first place where they are none. -/
def decode (bytes : Bytes) : Except Error (List Char) := decodeFrom 0 bytes

example : decode [0x61, 0xC3, 0xA9, 0xF0, 0x9F] = .error (.incomplete 3) := by rfl

example : (decode [0x61, 0xE2, 0x82, 0x41]) = .error (.invalid 2 1) := by rfl

/-- Bytes with every part that is no UTF-8 replaced by U+FFFD, one per broken sequence. -/
def decodeLossyFrom : Nat → Bytes → List Char
  | 0, _ => []
  | fuel + 1, bytes =>
    match decode bytes with
    | .ok text => text
    | .error (.incomplete index) =>
      match decode (bytes.take index) with
      | .ok text => text ++ ['\ufffd']
      | .error _ => ['\ufffd']
    | .error (.invalid length index) =>
      match decode (bytes.take index) with
      | .ok text => text ++ '\ufffd' :: decodeLossyFrom fuel (bytes.drop (index + length))
      | .error _ => ['\ufffd']

def decodeLossy (bytes : Bytes) : String :=
  String.ofList (decodeLossyFrom (bytes.length + 1) bytes)

end Utf8

/-- The text of bytes that are UTF-8. -/
def Bytes.text? (bytes : Bytes) : Option String :=
  match Utf8.decode bytes with
  | .ok text => some (String.ofList text)
  | .error _ => none

end Intake
