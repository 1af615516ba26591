/-
Module: Intake.Toml.Writer
Purpose: Writes TOML documents made of plain values and sections.
Main exports: Toml.Quoting, Toml.quotingOf, Toml.stringText, Toml.floatText, Toml.Section,
  Toml.Document, Toml.Document.render

A string is written in the first of these forms that needs no escape: quotes, single quotes, and the
same two over several lines.  If all need some, it is written in quotes with escapes.
-/
import Intake.Toml.Basic
import Intake.Number.Decimal
import Intake.Json.Writer

namespace Intake

namespace Toml

/-! ### Strings

A string is written in the simplest of four forms that can hold it. -/

/-- What decides about the form of a string: the longest runs of both kinds of quotes, and whether it
holds control characters, backslashes and ends of lines.  A tab counts as none of them. -/
structure Traits where
  singleRun : Nat
  doubleRun : Nat
  control : Bool
  backslash : Bool
  newline : Bool
  deriving Repr, DecidableEq

/-- The longest run of a character, where `current` of them stand in front of the text. -/
def longestRun (c : Char) (current : Nat) : List Char → Nat
  | [] => current
  | d :: rest => if d = c then longestRun c (current + 1) rest else max current (longestRun c 0 rest)

def isControl (c : Char) : Bool :=
  c != '\t' && c != '\n' && (decide (c.toNat < 0x20) || c.toNat == 0x7F)

def Traits.of (s : List Char) : Traits where
  singleRun := longestRun '\'' 0 s
  doubleRun := longestRun '"' 0 s
  control := s.any isControl
  backslash := s.contains '\\'
  newline := s.contains '\n'

/-- The four forms of a string. -/
inductive Quoting where
  | basic
  | literal
  | multiBasic
  | multiLiteral
  deriving Repr, DecidableEq

def quotingOf (t : Traits) : Quoting :=
  if !t.control && !t.backslash && t.doubleRun == 0 && !t.newline then .basic
  else if !t.control && t.singleRun == 0 && !t.newline then .literal
  else if !t.control && !t.backslash && t.doubleRun ≤ 2 then .multiBasic
  else if !t.control && t.singleRun ≤ 2 then .multiLiteral
  else if t.newline then .multiBasic
  else .basic

/-- Four hexadecimal digits in upper case. -/
def upperHex4 (n : Nat) : List Char :=
  let digit (d : Nat) : Char := (Json.hexDigit d).toUpper
  [digit (n / 4096 % 16), digit (n / 256 % 16), digit (n / 16 % 16), digit (n % 16)]

/-- The text inside quotes.  Up to `quotesKept` quotes in a row stay as they are, and ends of lines
stay where lines are kept. -/
def escapedText (quotesKept : Nat) (linesKept : Bool) (quotesSoFar : Nat) : List Char → List Char
  | [] => []
  | c :: rest =>
    if c = '"' then
      if quotesSoFar < quotesKept then
        '"' :: escapedText quotesKept linesKept (quotesSoFar + 1) rest
      else '\\' :: '"' :: escapedText quotesKept linesKept 0 rest
    else
      let written :=
        if c = '\x08' then ['\\', 'b']
        else if c = '\t' then ['\\', 't']
        else if c = '\n' then (if linesKept then ['\n'] else ['\\', 'n'])
        else if c = '\x0c' then ['\\', 'f']
        else if c = '\r' then ['\\', 'r']
        else if c = '\\' then ['\\', '\\']
        else if c.toNat < 0x20 ∨ c.toNat = 0x7F then '\\' :: 'u' :: upperHex4 c.toNat
        else [c]
      written ++ escapedText quotesKept linesKept 0 rest

/-- The first line of a string of several lines is left empty if the string has ends of lines. -/
def openingLine (t : Traits) : List Char := if t.newline then ['\n'] else []

/-- A string with its quotes. -/
def stringText (s : List Char) : List Char :=
  let traits := Traits.of s
  match quotingOf traits with
  | .basic => '"' :: escapedText 0 false 0 s ++ ['"']
  | .literal => '\'' :: s ++ ['\'']
  | .multiBasic =>
    "\"\"\"".toList ++ openingLine traits ++ escapedText 2 true 0 s ++ "\"\"\"".toList
  | .multiLiteral => "'''".toList ++ openingLine traits ++ s ++ "'''".toList

/-! ### Values and documents -/

/-- A float with the fewest digits that read back, never an exponent, and always a fraction. -/
def floatText (x : Binary64) : List Char :=
  match x with
  | .finite _ _ => x.plainText.toList ++ (if x.isWhole then ".0".toList else [])
  | .infinite negative => if negative then "-inf".toList else "inf".toList
  | .nan => "nan".toList

def integerText (n : Int) : List Char :=
  (if n < 0 then ['-'] else []) ++ Nat.toDigits 10 n.natAbs

mutual

/-- A value on one line. -/
def valueText : Toml → List Char
  | .string s => stringText s.toList
  | .integer n => integerText n
  | .float x => floatText x
  | .boolean b => (if b then "true" else "false").toList
  | .dateTime => []
  | .array items => '[' :: itemsText items ++ [']']
  | .table fields => '\x7b' :: fieldsText fields ++ ['\x7d']

def itemsText : List Toml → List Char
  | [] => []
  | [item] => valueText item
  | item :: rest => valueText item ++ ',' :: ' ' :: itemsText rest

def fieldsText : List (String × Toml) → List Char
  | [] => []
  | [(k, v)] => k.toList ++ " = ".toList ++ valueText v
  | (k, v) :: rest => k.toList ++ " = ".toList ++ valueText v ++ ',' :: ' ' :: fieldsText rest

end

/-- A part of a document under a header of its own: a table, or one of a list of tables. -/
structure Section where
  name : String
  isElement : Bool
  fields : List (String × Toml)
  deriving Repr

/-- A document: values in front, then its sections.  All keys are bare. -/
structure Document where
  values : List (String × Toml)
  sections : List Section
  deriving Repr

/-- One line with a key and a value. -/
def pairLine (pair : String × Toml) : List Char :=
  pair.1.toList ++ " = ".toList ++ valueText pair.2 ++ ['\n']

def Section.header (s : Section) : List Char :=
  if s.isElement then "[[".toList ++ s.name.toList ++ "]]\n".toList
  else '[' :: s.name.toList ++ "]\n".toList

def Section.render (s : Section) : List Char := s.header ++ s.fields.flatMap pairLine

namespace Document

/-- The lines of a document, with an empty line in front of every section that is not the first
thing. -/
def render (d : Document) : List Char :=
  let front := d.values.flatMap pairLine
  let blocks := d.sections.map Section.render
  if front = [] then
    match blocks with
    | [] => []
    | first :: rest => first ++ rest.flatMap ('\n' :: ·)
  else front ++ blocks.flatMap ('\n' :: ·)

def text (d : Document) : String := String.ofList d.render

end Document

end Toml

end Intake
