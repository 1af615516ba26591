/-
Module: Intake.Fault.Redaction
Purpose: Removes secrets and credential paths from a text before it leaves the process, and caps its
  length.
Main exports: Redaction.sweep, Redaction.secretRule, Redaction.pathRule, Redaction.redact,
  Redaction.cap, Redaction.sanitize, Fault.sanitizedMessage

A text is read from left to right.  Where a rule applies, its replacement is written and reading goes
on behind the characters that it covers; elsewhere one character is copied.  Secrets are replaced
first, credential paths in the result, and the length is capped last.
-/
import Intake.Text.Blank
import Intake.Fault.Basic

namespace Intake

namespace Redaction

/-- A rule tried at the start of a text: what is written instead, and how many characters it covers. -/
abbrev Rule := List Char → Option (List Char × Nat)

/-- Copies a text behind its first `skip` characters, with a rule applied at every place that no
earlier application covers. -/
def sweepFrom (rule : Rule) : Nat → List Char → List Char
  | _, [] => []
  | skip + 1, _ :: rest => sweepFrom rule skip rest
  | 0, c :: rest =>
    match rule (c :: rest) with
    | some (replacement, covered) => replacement ++ sweepFrom rule (covered - 1) rest
    | none => c :: sweepFrom rule 0 rest

def sweep (rule : Rule) (s : List Char) : List Char := sweepFrom rule 0 s

/-- Whether `c` is the lower case letter `letter` in some case.  Two letters outside ASCII fold into
ASCII: the long s into `s` and the Kelvin sign into `k`. -/
def foldsTo (letter c : Char) : Bool :=
  c.toLower == letter || (letter == 's' && c == '\u017f') || (letter == 'k' && c == '\u212a')

/-- Whether a text starts with a lower case word, in any case. -/
def startsWithFolded : List Char → List Char → Bool
  | [], _ => true
  | _ :: _, [] => false
  | letter :: word, c :: rest => foldsTo letter c && startsWithFolded word rest

/-- The words that announce a secret value. -/
def secretWords : List (List Char) :=
  ["password".toList, "token".toList, "key".toList, "secret".toList]

def isSeparator (c : Char) : Bool := c == '=' || c == ':'

/-- The value behind a separator: white space, then everything up to the next white space.  Gives the
number of characters of both, if there is a value at all. -/
def valueLength? (s : List Char) : Option Nat :=
  let value := (s.dropWhile isBlank).takeWhile (!isBlank ·)
  if value = [] then none else some ((s.takeWhile isBlank).length + value.length)

/-- A secret word, a separator and a value; the word stays as it was written. -/
def secretRule : Rule := fun s =>
  match secretWords.find? (startsWithFolded · s) with
  | none => none
  | some word =>
    match s.drop word.length with
    | separator :: rest =>
      if isSeparator separator then
        (valueLength? rest).map fun n =>
          (s.take word.length ++ "=***".toList, word.length + 1 + n)
      else none
    | [] => none

/-- The characters that paths are made of. -/
def isPathChar (c : Char) : Bool :=
  c.isAlphanum || c == '.' || c == '_' || c == '/' || c == '-'

/-- The directories that hold credentials. -/
def credentialDirectories : List (List Char) :=
  ["secret".toList, "secrets".toList, ".ssh".toList, ".aws".toList, ".config".toList]

/-- Whether a path continues with a credential directory and a name in it. -/
def entersCredentials : List Char → Bool
  | '/' :: path =>
    credentialDirectories.any fun directory =>
      (directory ++ ['/']).isPrefixOf path && decide (directory.length + 1 < path.length)
  | _ => false

/-- Whether a path enters a credential directory anywhere. -/
def reachesCredentials : List Char → Bool
  | [] => false
  | c :: rest => entersCredentials (c :: rest) || reachesCredentials rest

/-- A path that starts with a slash and at least one more character before it enters a credential
directory; it reaches as far as there are path characters. -/
def pathRule : Rule
  | '/' :: c :: rest =>
    let path := rest.takeWhile isPathChar
    if isPathChar c && reachesCredentials path then
      some ("/***REDACTED***/".toList, path.length + 2)
    else none
  | _ => none

/-- Secrets and credential paths replaced, whatever the length. -/
def redact (s : List Char) : List Char := sweep pathRule (sweep secretRule s)

/-- The size of a text in UTF-8. -/
def byteLength : List Char → Nat
  | [] => 0
  | c :: rest => c.utf8Size + byteLength rest

/-- Whether the first `n` bytes of a text are whole characters. -/
def isBoundary : List Char → Nat → Bool
  | _, 0 => true
  | [], _ + 1 => false
  | c :: rest, n + 1 => decide (c.utf8Size ≤ n + 1) && isBoundary rest (n + 1 - c.utf8Size)

/-- The last boundary at or before `n`, searched downwards. -/
def boundaryBelow (s : List Char) : Nat → Nat
  | 0 => 0
  | n + 1 => if isBoundary s (n + 1) then n + 1 else boundaryBelow s n

/-- The whole characters among the first `n` bytes. -/
def takeBytes : Nat → List Char → List Char
  | _, [] => []
  | n, c :: rest => if c.utf8Size ≤ n then c :: takeBytes (n - c.utf8Size) rest else []

/-- The greatest number of bytes that are reported. -/
def byteLimit : Nat := 500

def truncationMark : List Char := "...[truncated]".toList

/-- Cuts a text that is too long at a character boundary and marks the cut. -/
def cap (s : List Char) : List Char :=
  if byteLimit < byteLength s then
    takeBytes (boundaryBelow s (byteLimit - truncationMark.length)) s ++ truncationMark
  else s

def sanitizeChars (s : List Char) : List Char := cap (redact s)

/-- A text made safe to store or to report outside the process. -/
def sanitize (s : String) : String := String.ofList (sanitizeChars s.toList)

example : sanitize "api_key: abc and /home/a/.ssh/id_rsa" = "api_key=*** and /***REDACTED***/" := by
  decide +kernel

end Redaction

/-- The text of a fault made safe to store or to report outside the process. -/
def Fault.sanitizedMessage (fault : Fault) : String := Redaction.sanitize fault.message

end Intake
