/-
Module: Intake.Pipeline.Stock
Purpose: Pipelines put together from the steps that every pipeline can use, and what they may do.
Main exports: Step.IsStock, Pipeline.MadeOf, Context.Lacks, Outcome.IsOrderly
-/
import Intake.Pipeline.Basic

namespace Intake

/-- The steps that every pipeline can use. -/
inductive Step.IsStock : Step → Prop where
  | logContext : IsStock .logContext
  | setProperty (key value : String) : IsStock (.setProperty key value)
  | requireProperty (key : String) : IsStock (.requireProperty key)

/-- All steps of the pipeline are of a kind.  Its shape, its choices and its guards are free. -/
def Pipeline.MadeOf (kind : Step → Prop) (node : Pipeline) : Prop := ∀ leaf ∈ node.leaves, kind leaf.2

/-- A property is missing, or holds white space only. -/
def Context.Lacks (c : Context) (key : String) : Prop :=
  ∀ value, c.property? key = some value → ∀ ch ∈ value.toList, isBlank ch = true

/-- What an outcome leaves of the context that was given, and what it tells about it: only properties are
changed or added; there is no fault; and a failure, which is also what keeps others from following, has a
property that the context lacks as its reason. -/
structure Outcome.IsOrderly (given : Context) (o : Outcome) : Prop where
  pipeline : o.context.pipeline = given.pipeline
  payload : o.context.payload = given.payload
  receivedId : o.context.receivedId = given.receivedId
  sendingId : o.context.sendingId = given.sendingId
  properties : ∀ key, (given.property? key).isSome = true → (o.context.property? key).isSome = true
  fault : o.fault = none
  flags : o.succeeded = o.canProceed
  result :
    if o.succeeded then o.context.result = given.result
    else ∃ key, o.context.Lacks key ∧ o.context.result = some
      ⟨"missing_property", "required property '" ++ key ++ "' is missing", some "require_property"⟩

end Intake
