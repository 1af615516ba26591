/-
Module: Intake.Proofs.Pipeline.Orderly
Purpose: Pipelines made of the steps that every pipeline can use change nothing but properties and the reason
  of a refusal.
Main exports: Step.hasText_eq_false_iff, Outcome.chains_isOrderly, Step.obeys_of_isStock,
  Pipeline.stock_steps_are_orderly
-/
import Intake.Proofs.Pipeline.Laws

namespace Intake

/-- A property without text is one that the context lacks. -/
theorem Step.hasText_eq_false_iff {c : Context} {key : String} :
    Step.hasText c key = false ↔ c.Lacks key := by
  rw [hasText, Context.Lacks]
  cases found : c.property? key with
  | none => simp
  | some value =>
      have empty : trim value = "" ↔ trimChars value.toList = [] := by
        rw [trim, ← String.ofList_nil, String.ofList_inj]
      simp [empty, trimChars_eq_nil_iff]

namespace Outcome

open Pipeline (Chains)

/-- A step that only proceeds changes nothing. -/
theorem isOrderly_proceed (c : Context) : (Outcome.proceed c).IsOrderly c where
  pipeline := rfl
  payload := rfl
  receivedId := rfl
  sendingId := rfl
  properties _ known := known
  fault := rfl
  flags := rfl
  result := rfl

/-- What steps leave as they find it, one after the other, is left by all of them together. -/
theorem chains_isOrderly : Chains IsOrderly where
  proceed := isOrderly_proceed
  onwards {c outcome next} first proceeds second := by
    have succeeded : outcome.succeeded = true := first.flags.trans proceeds
    have kept : outcome.context.result = c.result := by
      have result := first.result
      rwa [if_pos succeeded] at result
    exact
      { pipeline := second.pipeline.trans first.pipeline
        payload := second.payload.trans first.payload
        receivedId := second.receivedId.trans first.receivedId
        sendingId := second.sendingId.trans first.sendingId
        properties := fun key known => second.properties key (first.properties key known)
        fault := second.fault
        flags := second.flags
        result := by rw [← kept]; exact second.result }

/-- A step that sets a property sets this one and no other. -/
theorem isOrderly_setProperty (c : Context) (key value : String) :
    (Outcome.proceed (c.setProperty key value)).IsOrderly c where
  pipeline := rfl
  payload := rfl
  receivedId := rfl
  sendingId := rfl
  properties other known := by
    rw [Context.property?] at known
    rw [proceed, Context.setProperty, Context.property?, Table.find?_put]
    split
    · rfl
    · exact known
  fault := rfl
  flags := rfl
  result := rfl

/-- A step that rejects a context names what is missing in it. -/
theorem isOrderly_reject {c : Context} {key : String} (lacks : c.Lacks key) :
    (Outcome.reject c (Step.missingProperty key)).IsOrderly c where
  pipeline := rfl
  payload := rfl
  receivedId := rfl
  sendingId := rfl
  properties _ known := known
  fault := rfl
  flags := rfl
  result := ⟨key, lacks, rfl⟩

end Outcome

/-- Every one of the steps keeps order by itself. -/
theorem Step.obeys_of_isStock {s : Step} (stock : s.IsStock) : s.Obeys Outcome.IsOrderly := by
  intro c
  cases stock with
  | logContext => exact ⟨_, rfl, Outcome.isOrderly_proceed c⟩
  | setProperty key value => exact ⟨_, rfl, Outcome.isOrderly_setProperty c key value⟩
  | requireProperty key =>
      cases found : hasText c key with
      | true =>
          refine ⟨.proceed c, ?_, Outcome.isOrderly_proceed c⟩
          simp only [requireProperty, found, if_true]
      | false =>
          refine ⟨.reject c (missingProperty key), ?_, ?_⟩
          · simp only [requireProperty, found, Bool.false_eq_true, if_false]
          · exact Outcome.isOrderly_reject (hasText_eq_false_iff.mp found)

namespace Pipeline

/-- A pipeline made of the steps that every pipeline can use, in whatever shape, with whatever choices and
guards, never faults and never offers anything to a store.  It keeps the kind of processing, the payload, both
identifiers and every property that was there; it succeeds exactly if others may follow, and then keeps the
result; and else the result names a property that the context lacks in the end. -/
theorem stock_steps_are_orderly {node : Pipeline} (made : node.MadeOf Step.IsStock) (c : Context) :
    ∃ outcome,
      (node.execute c).result = .ok outcome ∧ outcome.IsOrderly c ∧ offers (node.execute c).trace = [] :=
  execute_obeys Outcome.chains_isOrderly (made.mono fun _ => Step.obeys_of_isStock) c

/-- A route that is set on the way leads to a guarded step that refuses a blank property. -/
theorem blank_partner_is_refused :
    let north := Pipeline.guarded (.step (.requireProperty "partner")) (.inbound fun _ => .ok ())
    let node := Pipeline.sequence
      [.step (.setProperty "route" "north"),
        .conditional (fun c => c.property? "route" == some "north") north .empty,
        .step .logContext]
    let c := (Context.ofPayload "receive" .null).setProperty "partner" " \t"
    node.MadeOf Step.IsStock ∧
      ∃ outcome, (node.execute c).result = .ok outcome ∧ outcome.IsOrderly c ∧
        outcome.succeeded = false ∧ outcome.context.property? "route" = some "north" ∧
        outcome.context.result = some
          ⟨"missing_property", "required property 'partner' is missing", some "require_property"⟩ := by
  intro north node c
  have made : node.MadeOf Step.IsStock := by
    have none : Pipeline.empty.MadeOf Step.IsStock := madeOf_sequence.mpr (List.forall_mem_nil _)
    simp [node, north, none, Step.IsStock.setProperty, Step.IsStock.requireProperty,
      Step.IsStock.logContext]
  obtain ⟨outcome, result, orderly, -⟩ := stock_steps_are_orderly made c
  refine ⟨made, outcome, result, orderly, ?_⟩
  have refused : (node.execute c).result = .ok (.reject (c.setProperty "route" "north")
      (Step.missingProperty "partner")) := by rfl
  rw [result] at refused
  injection refused with refused
  rw [refused]
  exact ⟨rfl, rfl, rfl⟩

end Pipeline

end Intake
