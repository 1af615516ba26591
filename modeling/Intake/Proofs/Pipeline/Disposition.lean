/-
Module: Intake.Proofs.Pipeline.Disposition
Purpose: What becomes of the fault of a step: which guard reacts, what it files, and what is returned.
Main exports: Pipeline.exceptionsCounted, Pipeline.execute_disposes_of_faults
-/
import Intake.Agent.Basic
import Intake.Proofs.Pipeline.Ending

namespace Intake

/-! ### What is counted

The store answers each offer, and an offer that it accepts is counted as an exception. -/

/-- Each exception counted adds one to the counter of exceptions. -/
theorem Metrics.exceptionsRecorded_recordAll (m : Metrics) (now : Nat)
    (records : List ExceptionRecord) :
    (m.recordAll now (records.map fun _ => .exceptionRecorded)).exceptionsRecorded =
      m.exceptionsRecorded + records.length := by
  induction records generalizing m with
  | nil => rfl
  | cons first rest ih =>
      have onwards := ih (m.record now .exceptionRecorded)
      rw [List.map_cons, recordAll, List.foldl_cons, ← recordAll, onwards, List.length_cons,
        record, Nat.add_assoc, Nat.add_comm 1]

namespace Pipeline

/-- The record of an offer that the store accepted. -/
def Offer.accepted? (o : Offer) : Option ExceptionRecord :=
  match o.reply with
  | .ok () => some o.record
  | .error _ => none

/-- The records in the store are those of the offers that it accepted. -/
theorem acceptedRecords_eq (trace : List Event) :
    acceptedRecords trace = (offers trace).filterMap Offer.accepted? := by
  rw [acceptedRecords, offers, List.filterMap_filterMap]
  congr 1
  funext e
  obtain ⟨path, action⟩ := e
  cases action with
  | ran => rfl
  | offered strategy record reply =>
      cases reply with
      | ok => rfl
      | error => rfl

/-- The counter of exceptions after an execution. -/
def exceptionsCounted (m : Metrics) (now : Nat) (trace : List Event) : Nat :=
  (m.recordAll now (countedEvents trace)).exceptionsRecorded

/-- Each of them is counted once. -/
theorem exceptionsCounted_eq (m : Metrics) (now : Nat) (trace : List Event) :
    exceptionsCounted m now trace =
      m.exceptionsRecorded + ((offers trace).filterMap Offer.accepted?).length := by
  rw [exceptionsCounted, countedEvents, Metrics.exceptionsRecorded_recordAll, acceptedRecords_eq]

theorem length_accepted_singleton (o : Offer) :
    ([o].filterMap Offer.accepted?).length =
      match o.reply with
      | .ok () => 1
      | .error _ => 0 := by
  cases reply : o.reply with
  | ok =>
      have taken : o.accepted? = some o.record := by rw [Offer.accepted?, reply]
      rw [List.filterMap_cons_some taken]
      rfl
  | error =>
      have refused : o.accepted? = none := by rw [Offer.accepted?, reply]
      rw [List.filterMap_cons_none refused]
      rfl

/-! ### Which faults are raised

Steps that proceed raise no fault, and nothing runs behind one that does.  So a fault is always that of the
last step. -/

/-- Steps that proceeded raised no fault. -/
theorem Passes.filterMap_fault? {start last : Context} {ran : List Execution}
    (h : Passes start ran last) : ran.filterMap Execution.fault? = [] := by
  induction h with
  | nil => rfl
  | cons _ returned _ _ ih =>
      rw [List.filterMap_cons_none, ih]
      rw [Execution.fault?, returned]

/-- Steps of which the last returned an outcome raised no fault. -/
theorem Passes.raised_of_ok {start : Context} {before : List Execution} {last : Execution}
    {trace : List Event} {outcome : Outcome} (h : Passes start before last.input)
    (ran : executions trace = before ++ [last]) (returned : last.result = .ok outcome) :
    raised trace = [] := by
  have none_here : last.fault? = none := by rw [Execution.fault?, returned]
  rw [raised, ran, List.filterMap_append, h.filterMap_fault?, List.nil_append,
    List.filterMap_cons_none none_here, List.filterMap_nil]

/-- Steps of which the last raised a fault raised this one alone. -/
theorem Passes.raised_of_error {start : Context} {before : List Execution} {last : Execution}
    {trace : List Event} {fault : Fault} (h : Passes start before last.input)
    (ran : executions trace = before ++ [last]) (failed : last.result = .error fault) :
    raised trace = [(last.path, fault)] := by
  have some_here : last.fault? = some (last.path, fault) := by rw [Execution.fault?, failed]
  rw [raised, ran, List.filterMap_append, h.filterMap_fault?, List.nil_append,
    List.filterMap_cons_some some_here, List.filterMap_nil]

/-! ### What becomes of a fault

The guards above the step decide: without any the fault leaves the tree, and otherwise the innermost one
absorbs it. -/

/-- An execution raises one fault at most.  Without one it returns an outcome, and no guard offers
anything.  A fault with no guard above its step is returned as it is.  Otherwise the innermost guard
above the step, and no other, offers one record to its store, made from the context that the guard was
entered with; the counter grows by one exactly if the store took it; and the whole stops without
success, with that context and the fault as its result. -/
theorem execute_disposes_of_faults (node : Pipeline) (c : Context) (m : Metrics) (now : Nat) :
    let run := node.execute c
    match raised run.trace with
    | [] =>
      offers run.trace = [] ∧
        exceptionsCounted m now run.trace = m.exceptionsRecorded ∧
        ∃ outcome, run.result = .ok outcome
    | [(path, fault)] =>
      match (node.guardsAbove path).getLast? with
      | none =>
        offers run.trace = [] ∧
          exceptionsCounted m now run.trace = m.exceptionsRecorded ∧
          run.result = .error fault
      | some guard =>
        ∃ entry,
          node.entered? c guard.path = some (.guarded guard.inner guard.strategy, entry) ∧
          let record : ExceptionRecord :=
            { side := guard.strategy.side
              correlationId := (guard.strategy.correlationId? entry).getD "unknown"
              source := guard.inner.label
              kind := fault.kind
              message := fault.sanitizedMessage
              followUp := if entry.wantsNotice then .notifyPartner else .none }
          let detail : Detail := ⟨fault.kind, fault.sanitizedMessage, some guard.inner.label⟩
          offers run.trace = [⟨guard.path, guard.strategy, record, guard.strategy.store record⟩] ∧
            exceptionsCounted m now run.trace = m.exceptionsRecorded +
              (match guard.strategy.store record with
                | .ok () => 1
                | .error _ => 0) ∧
            run.result = .ok
              { context := { entry with result := some detail }
                succeeded := false
                canProceed := false
                fault := some detail }
    | _ :: _ :: _ => False := by
  intro run
  have counted := exceptionsCounted_eq m now run.trace
  have ending : Ending node c c run := execute_ending node c
  cases ending with
  | proceeded result _ passes quiet =>
      rw [quiet] at counted
      rw [raised, passes.filterMap_fault?]
      exact ⟨quiet, counted, _, result⟩
  | stopped before last result _ ran passes returned quiet =>
      rw [quiet] at counted
      rw [passes.raised_of_ok ran returned]
      exact ⟨quiet, counted, _, result⟩
  | escaped before last result ran passes failed quiet unguarded =>
      rw [quiet] at counted
      rw [passes.raised_of_error ran failed]
      simp only [unguarded, List.getLast?_nil]
      exact ⟨quiet, counted, result⟩
  | absorbed before last guard entry result ran passes failed innermost enters offered =>
      rw [passes.raised_of_error ran failed]
      simp only [innermost]
      refine ⟨entry, enters, offered, ?_, result⟩
      rw [counted, offered, length_accepted_singleton]
      rfl

end Pipeline

end Intake
