/-
Module: Intake.Fault.Basic
Purpose: What can go wrong while one item is processed.
Main exports: StoreError, Fault, Fault.kind, Fault.message
-/

namespace Intake

/-- Why the exception store did not take a write. -/
inductive StoreError where
  | unavailable (reason : String)
  | rejected (reason : String)
  deriving Repr, DecidableEq

def StoreError.message : StoreError → String
  | .unavailable reason => "Store unavailable: " ++ reason
  | .rejected reason => "Write rejected: " ++ reason

/-- A fault raised while a single item is processed. -/
inductive Fault where
  | stepFailed (step reason : String)
  | transformFailed (reason : String)
  | invalidContext (reason : String)
  | persistence (cause : StoreError)
  | taskAborted (reason : String)
  | internalError (reason : String)
  deriving Repr, DecidableEq

namespace Fault

/-- The short name of a fault, as records and result codes carry it. -/
def kind : Fault → String
  | .stepFailed .. => "step_failed"
  | .transformFailed _ => "transform_failed"
  | .invalidContext _ => "invalid_context"
  | .persistence _ => "persistence"
  | .taskAborted _ => "task_aborted"
  | .internalError _ => "internal_error"

/-- The full text of a fault, for logs inside the process only. -/
def message : Fault → String
  | .stepFailed step reason => "Step '" ++ step ++ "' failed: " ++ reason
  | .transformFailed reason => "Transform failed: " ++ reason
  | .invalidContext reason => "Invalid context: " ++ reason
  | .persistence cause => "Persistence error: " ++ cause.message
  | .taskAborted reason => "Task aborted: " ++ reason
  | .internalError reason => "Internal error: " ++ reason

end Fault

end Intake
