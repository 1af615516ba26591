/-
Module: Intake.Log.Filter
Purpose: Which log messages are shown, by their level and the part of the program that wrote them.
Main exports: Log.Directive, Log.Filter, Log.Filter.ofText, Log.Filter.ofLevel, Log.Filter.shows

A filter is a list of directives.  For each part of the program the directive with the longest matching
target decides, and of two with one target the later.
-/
import Intake.Log.Settings

namespace Intake

namespace Log

/-- Lets the messages of all targets that start with a text pass, if their rank is at most `limit`. -/
structure Directive where
  target : String
  limit : Nat
  deriving Repr, DecidableEq

namespace Directive

def ofLevel (level : Level) : Directive := ⟨"", level.rank⟩

/-- The greatest rank that passes by the name of a level in any case, or by a digit. -/
def limitOf? (text : String) : Option Nat :=
  match String.ofList (text.toList.map Char.toLower) with
  | "off" | "0" => some 0
  | "error" | "1" => some 1
  | "warn" | "2" => some 2
  | "info" | "3" => some 3
  | "debug" | "4" => some 4
  | "trace" | "5" => some 5
  | _ => none

/-- The characters of a target. -/
def isTargetChar (c : Char) : Bool := c.isAlphanum || c == '_' || c == ':' || c == '-'

/-- A directive: a level, or a target with a level behind an equals sign.  A target without a level lets
everything pass. -/
def ofText? (text : String) : Option Directive :=
  match limitOf? text with
  | some limit => some ⟨"", limit⟩
  | none =>
    let target := text.toList.takeWhile isTargetChar
    let written : Directive := ⟨String.ofList target, Level.trace.rank⟩
    if target.isEmpty then none
    else
      match text.toList.dropWhile isTargetChar with
      | [] => some written
      | ['='] => some written
      | '=' :: level =>
        (limitOf? (String.ofList level)).map fun limit => { written with limit }
      | _ => none

/-- Whether a directive is about a target. -/
def covers (d : Directive) (target : String) : Bool :=
  d.target.toList.isPrefixOf target.toList

end Directive

abbrev Filter := List Directive

namespace Filter

/-- Everything up to a level. -/
def ofLevel (level : Level) : Filter := [.ofLevel level]

/-- The filter of directives between commas.  What is no directive is passed over, and where none is left
only errors are shown. -/
def ofText (text : String) : Filter :=
  let parts := (text.split (· == ',')).toList.map (·.toString)
  match parts.filterMap Directive.ofText? with
  | [] => [.ofLevel .error]
  | directives => directives

/-- Takes over a directive that is about the target, unless one with a longer target came before. -/
def preferred (target : String) (best : Option Directive) (d : Directive) : Option Directive :=
  if d.covers target then
    match best with
    | some b => if b.target.length ≤ d.target.length then some d else some b
    | none => some d
  else best

/-- The directive that decides for a target. -/
def deciding? (filter : Filter) (target : String) : Option Directive :=
  filter.foldl (preferred target) none

def shows (filter : Filter) (target : String) (level : Level) : Bool :=
  match filter.deciding? target with
  | some d => decide (level.rank ≤ d.limit)
  | none => false

end Filter

end Log

end Intake
