/-
Module: Intake.Fault.Cut
Purpose: What may be reported of a text that can be too long.
Main exports: Redaction.IsReport, Redaction.search?, Redaction.IsLongestWithin, Redaction.Capped

A text that is too long is cut at a place where a character ends.  Such a place is searched for from the
greatest length downwards, one byte at a time.
-/
import Intake.Fault.Redaction
import Intake.Text.Utf8

namespace Intake

namespace Redaction

/-- Bytes that may leave the process: a text, and not too many. -/
structure IsReport (bytes : Bytes) : Prop where
  text : ∃ s, Utf8.decode bytes = .ok s
  short : bytes.length ≤ 500

/-- The search for a boundary from `n` downwards: the place where it ends, and the number of steps down to
there.  A search that is still going on at zero has nowhere left to go. -/
def search? (s : List Char) : Nat → Option (Nat × Nat)
  | 0 => if isBoundary s 0 then some (0, 0) else none
  | n + 1 =>
    if isBoundary s (n + 1) then some (n + 1, 0)
    else (search? s n).map fun (place, steps) => (place, steps + 1)

/-- The longest beginning of a text that has at most `n` bytes and ends where a character ends. -/
structure IsLongestWithin (n : Nat) (s kept : List Char) : Prop where
  begins : kept <+: s
  fits : byteLength kept ≤ n
  longest : ∀ other, other <+: s → byteLength other ≤ n → other <+: kept

/-- What is shown of a whole text. -/
structure Capped (whole shown : List Char) : Prop where
  report : IsReport (Utf8.encode shown)
  /-- What is short enough is shown as it is. -/
  short : byteLength whole ≤ 500 → shown = whole
  /-- Of anything else the longest beginning is kept that leaves room for the mark.  The search for its end
  takes three steps at most. -/
  cut : 500 < byteLength whole → ∃ kept steps,
    shown = kept ++ "...[truncated]".toList ∧ IsLongestWithin 486 whole kept ∧
      search? whole 486 = some (byteLength kept, steps) ∧ steps ≤ 3 ∧ 483 ≤ byteLength kept

end Redaction

end Intake
