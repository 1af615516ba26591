/-
Module: Intake.Pipeline.Outline
Purpose: The structure of a pipeline as one line of text.
Main exports: Pipeline.quotedName, Pipeline.outline
-/
import Intake.Pipeline.Basic
import Intake.Json.Writer

namespace Intake

namespace Pipeline

/-- A character of a quoted name.  Quotes, backslashes and controls are escaped; names are taken to be
printable otherwise. -/
def escapedInName (c : Char) : List Char :=
  if c = '"' then ['\\', '"']
  else if c = '\\' then ['\\', '\\']
  else if c = '\n' then ['\\', 'n']
  else if c = '\r' then ['\\', 'r']
  else if c = '\t' then ['\\', 't']
  else if c = '\x00' then ['\\', '0']
  else if c.toNat < 0x20 ∨ (0x7F ≤ c.toNat ∧ c.toNat < 0xA0) then
    "\\u\x7b".toList ++ Nat.toDigits 16 c.toNat ++ ['\x7d']
  else [c]

def quotedName (name : String) : String :=
  String.ofList ('"' :: name.toList.flatMap escapedInName ++ ['"'])

def sideWord : Side → String
  | .inbound => "Inbound"
  | .outbound => "Outbound"

mutual

/-- The node with its children inside; the choice of a branch has no text. -/
def outline : Pipeline → String
  | .step s => "Step(" ++ quotedName s.name ++ ")"
  | .sequence nodes => "Sequence([" ++ outlineAll nodes ++ "])"
  | .conditional _ yes no =>
    "Conditional \x7b then_branch: " ++ yes.outline ++ ", else_branch: " ++ no.outline ++ " \x7d"
  | .guarded inner strategy =>
    "Guarded(ExceptionDecorator \x7b inner: " ++ inner.outline ++ ", target: " ++
      sideWord strategy.side ++ " \x7d)"

def outlineAll : List Pipeline → String
  | [] => ""
  | [node] => node.outline
  | node :: rest => node.outline ++ ", " ++ outlineAll rest

end

end Pipeline

end Intake
