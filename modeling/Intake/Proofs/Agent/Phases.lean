/-
Module: Intake.Proofs.Agent.Phases
Purpose: Which pipelines a run of an agent starts, on which contexts, how it ends, and what it counts.
Main exports: Agent.Run.FailsWith, Agent.Course.normal_eq_some_iff, Agent.Course.error_eq_some_iff,
  Agent.Course.delegation_eq_some_iff, Agent.itemCounts_events, Agent.inFlight_during,
  Agent.run_keeps_to_phases
-/
import Intake.Agent.Basic
import Intake.Proofs.Agent.Course
import Intake.Proofs.Observe.ItemCounts

namespace Intake

namespace Agent

variable {ι : Type u} {agent : Agent ι} {item : ι} {r : Run}

/-- The normal pipeline of a run ended with an outcome that reports failure. -/
def Run.FailsWith (r : Run) (outcome : Outcome) : Prop :=
  ∃ p, r.normal = some p ∧ p.result = .ok outcome ∧ outcome.succeeded = false

/-- The outcome with which a normal pipeline fails is the one that it returned. -/
theorem Run.failsWith_mk_iff {p : Pipeline.Run} {outcome : Outcome} (result : p.result = .ok outcome)
    (failed : outcome.succeeded = false) (ended : RunOutcome) (error : Option Pipeline.Run)
    (delegation : Option Delegation) (other : Outcome) :
    Run.FailsWith ⟨ended, some p, error, delegation⟩ other ↔ outcome = other := by
  constructor
  · rintro ⟨q, started, returned, -⟩
    injection started with same
    rw [← same, result] at returned
    injection returned
  · rintro rfl
    exact ⟨p, rfl, result, failed⟩

/-! ### Pipelines, outcomes and delegations

One lemma for each part of a run, which says exactly when the run has this part.  All of them are cases on the
course that the run has taken. -/

namespace Course

/-- The normal pipeline runs if the item can be transformed. -/
theorem normal_eq_some_iff (h : Course agent item r) (p : Pipeline.Run) :
    r.normal = some p ↔ ∃ c, agent.transform item = .ok c ∧ agent.normal.execute c = p := by
  cases h with
  | refused transformed => simp [transformed]
  | broken transformed => simp [transformed]
  | completed transformed => simp [transformed]
  | handled transformed => simp [transformed]
  | lost transformed => simp [transformed]

/-- The error pipeline runs if the normal one reports failure. -/
theorem error_eq_some_iff (h : Course agent item r) (p : Pipeline.Run) :
    r.error = some p ↔
      ∃ outcome, r.FailsWith outcome ∧ agent.error.execute (failureContext outcome) = p := by
  cases h with
  | refused => simp [Run.FailsWith]
  | broken _ result => simp [Run.FailsWith, result]
  | completed _ result succeeded => simp [Run.FailsWith, result, succeeded]
  | handled _ result failed => simp [Run.failsWith_mk_iff result failed]
  | lost _ result failed => simp [Run.failsWith_mk_iff result failed]

/-- A run is completed by a normal pipeline that succeeds. -/
theorem outcome_eq_completed_iff (h : Course agent item r) (c : Context) :
    r.outcome = .completed c ↔ ∃ p outcome, r.normal = some p ∧ p.result = .ok outcome ∧
      outcome.succeeded = true ∧ outcome.context = c := by
  cases h with
  | refused => simp
  | broken _ result => simp [result]
  | completed _ result succeeded => simp [result, succeeded]
  | @handled _ _ last _ result failed =>
      cases last.succeeded with
      | true => simp [result, failed]
      | false => simp [result, failed]
  | lost _ result failed => simp [result, failed]

/-- It is recovered by an error pipeline that succeeds. -/
theorem outcome_eq_recovered_iff (h : Course agent item r) (c : Context) :
    r.outcome = .recovered c ↔ ∃ p outcome, r.error = some p ∧ p.result = .ok outcome ∧
      outcome.succeeded = true ∧ outcome.context = c := by
  cases h with
  | refused => simp
  | broken => simp
  | completed => simp
  | @handled _ _ last _ _ _ recovery =>
      cases succeeded : last.succeeded with
      | true => simp [recovery, succeeded]
      | false => simp [recovery, succeeded]
  | lost _ _ _ recovery => simp [recovery]

/-- It fails if the error pipeline reports failure. -/
theorem outcome_eq_failed_iff (h : Course agent item r) (c : Context) :
    r.outcome = .failed c ↔ ∃ p outcome, r.error = some p ∧ p.result = .ok outcome ∧
      outcome.succeeded = false ∧ outcome.context = c := by
  cases h with
  | refused => simp
  | broken => simp
  | completed => simp
  | @handled _ _ last _ _ _ recovery =>
      cases succeeded : last.succeeded with
      | true => simp [recovery, succeeded]
      | false => simp [recovery, succeeded]
  | lost _ _ _ recovery => simp [recovery]

/-- It is handed over if a fault escapes. -/
theorem outcome_eq_delegated_iff (h : Course agent item r) (phase : Phase) :
    r.outcome = .delegated phase ↔ ∃ d, r.delegation = some d ∧ d.phase = phase := by
  cases h with
  | refused => simp
  | broken => simp
  | completed => simp
  | @handled _ _ last =>
      cases last.succeeded with
      | true => simp
      | false => simp
  | lost => simp

/-- What is handed over when a fault escapes in a phase. -/
theorem delegation_eq_some_iff (h : Course agent item r) (d : Delegation) :
    r.delegation = some d ↔ d.agent = agent.name ∧
      match d.phase with
      | .transform => agent.transform item = .error d.fault ∧ d.context = none
      | .normal => ∃ c, agent.transform item = .ok c ∧
          (agent.normal.execute c).result = .error d.fault ∧ d.context = some c
      | .error => ∃ outcome, r.FailsWith outcome ∧
          (agent.error.execute (failureContext outcome)).result = .error d.fault ∧
          d.context = some (failureContext outcome) := by
  obtain ⟨name, phase, fault, context⟩ := d
  cases h with
  | refused transformed =>
      cases phase with
      | transform => simp [transformed, eq_comm]
      | normal => simp [transformed]
      | error => simp [Run.FailsWith]
  | broken transformed result =>
      cases phase with
      | transform => simp [transformed]
      | normal => simp [transformed, result, eq_comm]
      | error => simp [Run.FailsWith, result]
  | completed transformed result succeeded =>
      cases phase with
      | transform => simp [transformed]
      | normal => simp [transformed, result]
      | error => simp [Run.FailsWith, result, succeeded]
  | handled transformed result failed recovery =>
      cases phase with
      | transform => simp [transformed]
      | normal => simp [transformed, result]
      | error => simp [Run.failsWith_mk_iff result failed, recovery]
  | lost transformed result failed recovery =>
      cases phase with
      | transform => simp [transformed]
      | normal => simp [transformed, result]
      | error => simp [Run.failsWith_mk_iff result failed, recovery, eq_comm]

end Course

/-! ### Counters

A run counts its item on arrival and at its end.  What is counted in between is not about items. -/

/-- The counts after an item has ended that way. -/
def RunOutcome.count (outcome : RunOutcome) (counts : Metrics.ItemCounts) : Metrics.ItemCounts :=
  match outcome with
  | .completed _ => { counts with completed := counts.completed + 1 }
  | .recovered _ => { counts with recovered := counts.recovered + 1 }
  | .failed _ => { counts with failed := counts.failed + 1 }
  | .delegated _ => { counts with delegated := counts.delegated + 1 }

/-- The end of a run is counted by its outcome. -/
theorem itemCounts_ended (m : Metrics) (now : Nat) (outcome : RunOutcome) :
    (m.record now outcome.event).itemCounts =
      outcome.count { m.itemCounts with inFlight := m.itemCounts.inFlight - 1 } := by
  cases outcome with
  | completed => rfl
  | recovered => rfl
  | failed => rfl
  | delegated => rfl

/-- What happens between the arrival of an item and its end. -/
def Run.eventsBetween (r : Run) (time : Duration) : List Metrics.Event :=
  Pipeline.countedEvents r.trace ++ [.processed time]

/-- The first event is the arrival and the last is the outcome. -/
theorem Run.events_eq (r : Run) (time : Duration) :
    r.events time = .itemReceived :: (r.eventsBetween time ++ [r.outcome.event]) := by
  rw [Run.events, Run.eventsBetween, List.append_assoc]
  rfl

/-- What happens between them leaves the counts of items alone. -/
theorem Run.isNeutral_of_between (r : Run) (time : Duration) :
    ∀ e ∈ r.eventsBetween time, e.IsNeutral := by
  intro e member
  rcases List.mem_append.mp member with counted | last
  · obtain ⟨record, -, rfl⟩ := List.mem_map.mp counted
    trivial
  · rw [List.mem_singleton.mp last]
    trivial

/-- A run counts its item as received and by its outcome, and the item is no longer in progress. -/
theorem itemCounts_events (m : Metrics) (now : Nat) (r : Run) (time : Duration) :
    (m.recordAll now (r.events time)).itemCounts =
      r.outcome.count { m.itemCounts with received := m.itemsReceived + 1 } := by
  rw [Run.events_eq, Metrics.recordAll_cons, Metrics.recordAll_append, Metrics.recordAll_cons]
  show (Metrics.record _ now r.outcome.event).itemCounts = _
  rw [itemCounts_ended, Metrics.itemCounts_recordAll_of_neutral (r.isNeutral_of_between time),
    Metrics.itemCounts_received]
  rfl

/-- From its arrival until it has ended the item is in progress. -/
theorem inFlight_during (m : Metrics) (now : Nat) {r : Run} {time : Duration}
    {begun rest : List Metrics.Event} (split : r.events time = begun ++ rest) (arrived : begun ≠ [])
    (unfinished : rest ≠ []) :
    (m.recordAll now begun).itemCounts.inFlight = m.itemCounts.inFlight + 1 := by
  obtain ⟨first, between, rfl⟩ := List.exists_cons_of_ne_nil arrived
  rw [Run.events_eq, List.cons_append] at split
  injection split with first_eq others
  obtain ⟨early, late, rfl⟩ := List.eq_nil_or_concat rest |>.resolve_left unfinished
  rw [List.concat_eq_append, ← List.append_assoc] at others
  obtain ⟨middle, -⟩ := List.append_inj' others rfl
  have neutral : ∀ e ∈ between, e.IsNeutral := by
    intro e member
    apply r.isNeutral_of_between time
    rw [middle]
    exact List.mem_append_left _ member
  rw [Metrics.recordAll_cons, Metrics.itemCounts_recordAll_of_neutral neutral, ← first_eq]
  rfl

/-! ### Runs

The parts of a run put together, for every agent and every item. -/

/-- An agent answers with an error only if it hands the item over. -/
theorem handle_eq_ok_iff (agent : Agent ι) (item : ι) :
    agent.handle item = .ok () ↔ ∀ phase, (agent.run item).outcome ≠ .delegated phase := by
  rw [handle, reply]
  cases (agent.run item).outcome with
  | completed => simp
  | recovered => simp
  | failed => simp
  | delegated phase => simp

/-- The normal pipeline runs exactly if the item is transformed, on the context that it is transformed
into; the error pipeline runs exactly if the normal one ends with an outcome that reports failure, on the
context of this outcome with a result on it: its own, or else the fault that was absorbed, or else a
fixed one.  The outcome tells which of the two reported success last and carries the context that it
returned, or tells the phase in which a fault escaped.  In the latter case, and in no other, something is
handed over: this phase, the fault as it was raised, and the context that the phase began with, of which
there is none before the item is transformed.  An item is counted once as received and once by its
outcome, and is in progress from the one to the other; the receiver learns of a fault exactly if one was
handed over. -/
theorem run_keeps_to_phases (agent : Agent ι) (item : ι) (m : Metrics) (now : Nat)
    (time : Duration) :
    let run := agent.run item
    let errorInput (outcome : Outcome) : Context :=
      { outcome.context with
        result := some ((outcome.context.result.or outcome.fault).getD
          ⟨"pipeline_failed", "normal pipeline reported failure", none⟩) }
    let counts := m.itemCounts
    (∀ p, run.normal = some p ↔
        ∃ c, agent.transform item = .ok c ∧ agent.normal.execute c = p) ∧
      (∀ p, run.error = some p ↔
        ∃ outcome, run.FailsWith outcome ∧ agent.error.execute (errorInput outcome) = p) ∧
      (∀ c, run.outcome = .completed c ↔ ∃ p outcome, run.normal = some p ∧
        p.result = .ok outcome ∧ outcome.succeeded = true ∧ outcome.context = c) ∧
      (∀ c, run.outcome = .recovered c ↔ ∃ p outcome, run.error = some p ∧
        p.result = .ok outcome ∧ outcome.succeeded = true ∧ outcome.context = c) ∧
      (∀ c, run.outcome = .failed c ↔ ∃ p outcome, run.error = some p ∧
        p.result = .ok outcome ∧ outcome.succeeded = false ∧ outcome.context = c) ∧
      (∀ phase, run.outcome = .delegated phase ↔
        ∃ d, run.delegation = some d ∧ d.phase = phase) ∧
      (∀ d, run.delegation = some d ↔ d.agent = agent.name ∧
        match d.phase with
        | .transform => agent.transform item = .error d.fault ∧ d.context = none
        | .normal => ∃ c, agent.transform item = .ok c ∧
            (agent.normal.execute c).result = .error d.fault ∧ d.context = some c
        | .error => ∃ outcome, run.FailsWith outcome ∧
            (agent.error.execute (errorInput outcome)).result = .error d.fault ∧
            d.context = some (errorInput outcome)) ∧
      (m.recordAll now (run.events time)).itemCounts =
        (match run.outcome with
          | .completed _ =>
            { counts with received := counts.received + 1, completed := counts.completed + 1 }
          | .recovered _ =>
            { counts with received := counts.received + 1, recovered := counts.recovered + 1 }
          | .failed _ =>
            { counts with received := counts.received + 1, failed := counts.failed + 1 }
          | .delegated _ =>
            { counts with received := counts.received + 1, delegated := counts.delegated + 1 }) ∧
      (∀ begun rest, run.events time = begun ++ rest → begun ≠ [] → rest ≠ [] →
        (m.recordAll now begun).itemCounts.inFlight = counts.inFlight + 1) ∧
      (agent.handle item = .ok () ↔ ∀ phase, run.outcome ≠ .delegated phase) := by
  intro run errorInput counts
  have h : Course agent item run := run_course agent item
  have input : ∀ outcome, errorInput outcome = failureContext outcome :=
    fun outcome => (failureContext_eq outcome).symm
  simp only [input]
  refine ⟨h.normal_eq_some_iff, h.error_eq_some_iff, h.outcome_eq_completed_iff,
    h.outcome_eq_recovered_iff, h.outcome_eq_failed_iff, h.outcome_eq_delegated_iff,
    h.delegation_eq_some_iff, ?_, ?_, handle_eq_ok_iff agent item⟩
  · rw [itemCounts_events]
    cases run.outcome with
    | completed => rfl
    | recovered => rfl
    | failed => rfl
    | delegated => rfl
  · intro begun rest split arrived unfinished
    exact inFlight_during m now split arrived unfinished

end Agent

end Intake
