/-
Module: Intake.Pipeline.Probe
Purpose: Steps with a fixed behaviour, for trying out pipelines.
Main exports: Step.Manner, Step.spy, Step.failing, Step.raising, Step.returning, Step.assignIds
-/
import Intake.Pipeline.Step

namespace Intake

namespace Step

/-- What a spy does with the context it is given. -/
inductive Manner where
  | proceed
  | stop
  | unsuccessful
  | reject
  | replace (payload : Json)
  deriving Repr

/-- The property in which proceeding spies leave their names. -/
def visitedProperty : String := "visited"

/-- The context with a spy's name added to those already left. -/
def markVisited (name : String) (c : Context) : Context :=
  c.setProperty visitedProperty
    (match c.property? visitedProperty with
    | some earlier => earlier ++ "," ++ name
    | none => name)

/-- A step with a fixed manner. -/
def spy (name : String) (manner : Manner) : Step :=
  ⟨name, fun c => .ok <|
    match manner with
    | .proceed => .proceed (markVisited name c)
    | .stop => .stop c
    | .unsuccessful => ⟨c, false, false, none⟩
    | .reject => .reject c ⟨"rejected", "rejected by " ++ name, some name⟩
    | .replace payload =>
      .proceed { Context.ofPayload c.pipeline payload with
        receivedId := c.receivedId, sendingId := c.sendingId }⟩

/-- A step that raises a given fault. -/
def raising (name : String) (fault : Fault) : Step := ⟨name, fun _ => .error fault⟩

/-- A step that always fails. -/
def failing (name : String) : Step := raising name (.stepFailed name "simulated failure")

/-- A step that sets a result, if one is given, and returns a fixed outcome. -/
def returning (name : String) (succeeded canProceed : Bool) (fault result : Option Detail) : Step :=
  ⟨name, fun c => .ok ⟨{ c with result := result.or c.result }, succeeded, canProceed, fault⟩⟩

/-- A step that replaces both message identifiers. -/
def assignIds (receivedId sendingId : Option String) : Step :=
  ⟨"ids", fun c => .ok (.proceed { c with receivedId, sendingId })⟩

end Step

end Intake
