/-
Module: Intake.Pipeline.Step
Purpose: Steps and their outcomes, and the steps that every pipeline can use.
Main exports: Outcome, Step, Step.setProperty, Step.requireProperty, Step.logContext
-/
import Intake.Message.Context

namespace Intake

/-- The outcome of a step or of a pipeline.  `context` is used from here on, `canProceed` says whether
the enclosing sequence goes on, and `fault` is a fault that was absorbed on the way. -/
structure Outcome where
  context : Context
  succeeded : Bool
  canProceed : Bool
  fault : Option Detail
  deriving Repr

namespace Outcome

/-- Success; the next step follows. -/
def proceed (context : Context) : Outcome := ⟨context, true, true, none⟩

/-- Success, but nothing follows. -/
def stop (context : Context) : Outcome := ⟨context, true, false, none⟩

/-- A refusal by the application, with its reason on the context. -/
def reject (context : Context) (reason : Detail) : Outcome :=
  ⟨context.withResult reason, false, false, none⟩

end Outcome

/-- A unit of work on a context.  A fault leaves the pipeline unless a guard absorbs it. -/
structure Step where
  name : String
  run : Context → Except Fault Outcome

namespace Step

/-- Reports the context to the log and proceeds. -/
def logContext : Step := ⟨"log_context", fun c => .ok (.proceed c)⟩

/-- Sets one property. -/
def setProperty (key value : String) : Step :=
  ⟨"set_property", fun c => .ok (.proceed (c.setProperty key value))⟩

/-- Whether a property is there and holds more than white space. -/
def hasText (c : Context) (key : String) : Bool :=
  match c.property? key with
  | some value => trim value != ""
  | none => false

/-- The reason given for a property that is missing or blank. -/
def missingProperty (key : String) : Detail :=
  ⟨"missing_property", "required property '" ++ key ++ "' is missing", some "require_property"⟩

/-- Refuses an item whose property is missing or blank. -/
def requireProperty (key : String) : Step :=
  ⟨"require_property", fun c =>
    .ok (if hasText c key then .proceed c else .reject c (missingProperty key))⟩

end Step

end Intake
