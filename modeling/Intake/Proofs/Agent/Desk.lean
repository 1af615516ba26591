/-
Module: Intake.Proofs.Agent.Desk
Purpose: What agents hand over is recorded once and marked for one more try once.
Main exports: ExceptionStore.takeOver_eq, ExceptionStore.mem_marked, Agent.Visit.isDelegated_iff,
  Agent.Desk.Kept, Agent.Desk.kept_after, Agent.Desk.Files, Agent.Desk.delegations_recorded_and_marked_once

The records are those of all visits and the marks those of the visits since the last collection, so the
induction is on the last visit: whatever it is, it adds to both, except that a collection empties the marks.
-/
import Mathlib.Data.List.Forall2
import Mathlib.Data.List.Induction
import Mathlib.Data.List.Nodup
import Intake.Agent.Desk
import Intake.Proofs.Agent.Phases

namespace Intake

/-! ### One fault that is handed over

A fault that an agent hands over is recorded and its identifier is marked, if there is one.  A store that
refuses writes gets neither. -/

namespace ExceptionStore

variable {s : ExceptionStore} {d : Agent.Delegation} {id : String}

/-- Marks with those of one more fault. -/
def marked (marks : List String) : Option String → List String
  | some id => if id ∈ marks then marks else marks ++ [id]
  | none => marks

/-- An identifier is marked if it was before or is that of the fault. -/
theorem mem_marked {marks : List String} {own : Option String} :
    id ∈ marked marks own ↔ id ∈ marks ∨ own = some id := by
  cases own with
  | none => simp [marked]
  | some other =>
      rw [marked]
      split
      · next known =>
          simp only [Option.some.injEq]
          constructor
          · exact .inl
          · rintro (old | rfl)
            · exact old
            · exact known
      · simp [eq_comm]

/-- No identifier is marked twice. -/
theorem nodup_marked {marks : List String} (once : marks.Nodup) (own : Option String) :
    (marked marks own).Nodup := by
  cases own with
  | none => exact once
  | some id =>
      rw [marked]
      split
      · exact once
      · next fresh =>
          refine List.nodup_append.mpr ⟨once, List.nodup_singleton id, ?_⟩
          rintro other old _ new rfl
          rw [List.mem_singleton.mp new] at old
          exact fresh old

/-- A store that takes writes gets one record, and one mark at most. -/
theorem takeOver_eq (writable : s.readOnly = false) :
    s.takeOver d =
      { s with records := s.records ++ [d.record], retries := marked s.retries d.correlationId? } := by
  obtain ⟨records, retries, readOnly⟩ := s
  obtain rfl : readOnly = false := writable
  cases own : d.correlationId? with
  | none => simp [takeOver, own, record, reply, orUnchanged, Except.map, marked]
  | some id =>
      by_cases known : id ∈ retries
      · simp [takeOver, own, record, reply, orUnchanged, Except.map, marked, markForRetry, known]
      · simp [takeOver, own, record, reply, orUnchanged, Except.map, marked, markForRetry, known]

/-- Without an identifier there is no mark, whether or not the store takes writes. -/
theorem retries_takeOver_of_none (unidentified : d.correlationId? = none) :
    (s.takeOver d).retries = s.retries := by
  obtain ⟨records, retries, readOnly⟩ := s
  cases readOnly with
  | true => simp [takeOver, unidentified, record, reply, orUnchanged, Except.map]
  | false => simp [takeOver, unidentified, record, reply, orUnchanged, Except.map]

end ExceptionStore

namespace Agent

variable {ι : Type u} {visits : List (Visit ι)} {v : Visit ι}

/-- A visit hands something over if there is a delegation. -/
theorem Visit.isDelegated_iff : v.isDelegated = true ↔ ∃ d, v.delegation? = some d := by
  cases v with
  | takeRetries => simp [isDelegated, delegation?]
  | run agent item =>
      have phases := (run_course agent item).outcome_eq_delegated_iff
      rw [isDelegated, delegation?]
      constructor
      · intro delegated
        cases outcome : (agent.run item).outcome with
        | delegated phase =>
            obtain ⟨d, handed, -⟩ := (phases phase).mp outcome
            exact ⟨d, handed⟩
        | _ =>
            rw [outcome] at delegated
            cases delegated
      · rintro ⟨d, handed⟩
        rw [(phases d.phase).mpr ⟨d, handed, rfl⟩]
        rfl

namespace Desk

/-! ### Any visits

A visit is a run of an agent over an item, or the taking of the marks.  What is in the store after some visits
can be told from these visits. -/

/-- One more visit is recent, unless it takes the marks. -/
theorem recent_concat (visits : List (Visit ι)) (v : Visit ι) :
    recent (visits ++ [v]) = if v.isTaking then [] else recent visits ++ [v] := by
  rw [recent, List.reverse_append, List.reverse_singleton, List.singleton_append, List.takeWhile_cons]
  cases v.isTaking with
  | true => rfl
  | false => simp [recent]

/-- The last visit comes after all others. -/
theorem after_concat (visits : List (Visit ι)) (v : Visit ι) :
    after (visits ++ [v]) = (after visits).visit v := List.foldl_concat ..

/-- What is in the store, and how often the marks were taken. -/
structure Kept (visits : List (Visit ι)) (desk : Desk) : Prop where
  writable : desk.store.readOnly = false
  records : desk.store.records = (visits.filterMap Visit.delegation?).map Delegation.record
  once : desk.store.retries.Nodup
  marks : ∀ id, id ∈ desk.store.retries ↔
    ∃ d ∈ (recent visits).filterMap Visit.delegation?, d.correlationId? = some id
  taken : desk.taken.length = visits.countP Visit.isTaking

/-- Every visit keeps it. -/
theorem Kept.visit {desk : Desk} (h : Kept visits desk) (v : Visit ι) :
    Kept (visits ++ [v]) (desk.visit v) := by
  cases v with
  | takeRetries =>
      refine ⟨h.writable, ?_, List.nodup_nil, ?_, ?_⟩
      · rw [List.filterMap_append]
        exact h.records.trans (congrArg _ (List.append_nil _).symm)
      · intro id
        rw [recent_concat]
        simp [Desk.visit, ExceptionStore.takeRetries, Visit.isTaking]
      · simp [Desk.visit, ExceptionStore.takeRetries, h.taken, List.countP_append, Visit.isTaking]
  | run agent item =>
      have taken : desk.taken.length = (visits ++ [Visit.run agent item]).countP Visit.isTaking := by
        rw [List.countP_append]
        exact h.taken
      have since : recent (visits ++ [Visit.run agent item]) = recent visits ++ [Visit.run agent item] := by
        rw [recent_concat]
        rfl
      cases handed : (agent.run item).delegation with
      | none =>
          have own : [Visit.run agent item].filterMap Visit.delegation? = [] := by
            simp [Visit.delegation?, handed]
          have same : (desk.visit (Visit.run agent item)).store = desk.store := by
            simp only [Desk.visit, ExceptionStore.afterRun, handed]
          refine ⟨?_, ?_, ?_, ?_, taken⟩
          · rw [same, h.writable]
          · rw [same, List.filterMap_append, own, List.append_nil, h.records]
          · rw [same]
            exact h.once
          · rw [same, since, List.filterMap_append, own, List.append_nil]
            exact h.marks
      | some d =>
          have own : [Visit.run agent item].filterMap Visit.delegation? = [d] := by
            simp [Visit.delegation?, handed]
          have grown : (desk.visit (Visit.run agent item)).store =
              { desk.store with
                records := desk.store.records ++ [d.record]
                retries := ExceptionStore.marked desk.store.retries d.correlationId? } := by
            simp only [Desk.visit, ExceptionStore.afterRun, handed]
            exact ExceptionStore.takeOver_eq h.writable
          refine ⟨?_, ?_, ?_, ?_, taken⟩
          · rw [grown]
            exact h.writable
          · rw [grown, List.filterMap_append, own, List.map_append, ← h.records]
            rfl
          · rw [grown]
            exact ExceptionStore.nodup_marked h.once _
          · intro id
            rw [grown, since, List.filterMap_append, own]
            show id ∈ ExceptionStore.marked _ _ ↔ _
            rw [ExceptionStore.mem_marked, h.marks]
            simp only [List.mem_append, List.mem_singleton, or_and_right, exists_or, exists_eq_left]

/-- So do any visits in any order. -/
theorem kept_after (visits : List (Visit ι)) : Kept visits (after visits) := by
  induction visits using List.reverseRecOn with
  | nil => exact ⟨rfl, rfl, List.nodup_nil, by simp [after, opening, ExceptionStore.empty, recent], rfl⟩
  | append_singleton visits v ih =>
      rw [after_concat]
      exact ih.visit v

/-- What was returned stays as it is. -/
theorem taken_prefix (desk : Desk) (visits : List (Visit ι)) :
    desk.taken <+: (visits.foldl visit desk).taken := by
  induction visits generalizing desk with
  | nil => exact List.prefix_rfl
  | cons v rest ih =>
      refine List.IsPrefix.trans ?_ (ih (desk.visit v))
      cases v with
      | run agent item => exact List.prefix_rfl
      | takeRetries => exact List.prefix_append _ _

/-- Each time the marks are taken, those in the store are returned. -/
theorem getElem?_taken (before rest : List (Visit ι)) :
    (after (before ++ .takeRetries :: rest)).taken[before.countP Visit.isTaking]? =
      some (after before).store.retries := by
  have now : ((after before).visit (.takeRetries : Visit ι)).taken[before.countP Visit.isTaking]? =
      some (after before).store.retries := by
    rw [← (kept_after before).taken]
    exact List.getElem?_concat_length ..
  obtain ⟨more, later⟩ := taken_prefix ((after before).visit (.takeRetries : Visit ι)) rest
  have whole : after (before ++ .takeRetries :: rest) =
      rest.foldl visit ((after before).visit .takeRetries) := List.foldl_append
  rw [whole, ← later, List.getElem?_append_left (List.getElem?_eq_some_iff.mp now).1]
  exact now

/-! ### Records

Each record is compared with the run that it was filed for: its side, its identifier and what is to be done
about it follow from the context that was handed over. -/

/-- How a run in which a fault escaped is filed: the run hands over the fault and the context that its phase
began with, and all of the record comes from these. -/
structure Files (agent : Agent ι) (item : ι) (d : Delegation) (r : ExceptionRecord) : Prop where
  outcome : (agent.run item).outcome = .delegated d.phase
  context : match d.phase with
    | .transform => d.context = none
    | .normal => ∃ c, agent.transform item = .ok c ∧ d.context = some c
    | .error => ∃ outcome, (agent.run item).FailsWith outcome ∧
      d.context = some (failureContext outcome)
  source : r.source = agent.name ++ ":" ++ d.phase.name
  side : r.side = .outbound ↔ ∃ c, d.context = some c ∧ c.receivedId = none ∧ c.sendingId ≠ none
  correlationId : r.correlationId = (d.context.bind Context.correlationId?).getD "unknown"
  kind : r.kind = d.fault.kind
  message : r.message = d.fault.sanitizedMessage
  followUp : r.followUp = .notifyPartner ↔ ∃ c, d.context = some c ∧ c.wantsNotice = true

/-- A record is outbound if its context was about to be sent and was not received. -/
theorem side_record_iff (d : Delegation) :
    d.record.side = .outbound ↔ ∃ c, d.context = some c ∧ c.receivedId = none ∧ c.sendingId ≠ none := by
  show d.side = .outbound ↔ _
  rw [Delegation.side]
  cases d.context with
  | none => simp
  | some c =>
      cases c.receivedId <;> cases c.sendingId <;> simp

/-- The partner is to be notified where the context asks for it. -/
theorem followUp_record_iff (d : Delegation) :
    d.record.followUp = .notifyPartner ↔ ∃ c, d.context = some c ∧ c.wantsNotice = true := by
  show FollowUp.ofNotice d.wantsNotice = .notifyPartner ↔ _
  rw [Delegation.wantsNotice]
  cases d.context with
  | none => simp [FollowUp.ofNotice]
  | some c => cases notice : c.wantsNotice <;> simp [FollowUp.ofNotice, notice]

/-- What is recorded files the run that handed it over. -/
theorem files_record {agent : Agent ι} {item : ι} {d : Delegation}
    (handed : (agent.run item).delegation = some d) : Files agent item d d.record := by
  have course := run_course agent item
  obtain ⟨name, context⟩ := (course.delegation_eq_some_iff d).mp handed
  refine ⟨(course.outcome_eq_delegated_iff d.phase).mpr ⟨d, handed, rfl⟩, ?_, ?_, side_record_iff d,
    rfl, rfl, rfl, followUp_record_iff d⟩
  · cases phase : d.phase with
    | transform =>
        rw [phase] at context
        exact context.2
    | normal =>
        rw [phase] at context
        obtain ⟨c, transformed, -, given⟩ := context
        exact ⟨c, transformed, given⟩
    | error =>
        rw [phase] at context
        obtain ⟨outcome, failed, -, given⟩ := context
        exact ⟨outcome, failed, given⟩
  · show d.agent ++ ":" ++ d.phase.name = _
    rw [name]

/-- The visits in which something is handed over are filed one by one. -/
theorem forall₂_files (visits : List (Visit ι)) :
    List.Forall₂ (fun v r => ∃ agent item d, v = Visit.run agent item ∧
        v.delegation? = some d ∧ Files agent item d r)
      (visits.filter Visit.isDelegated) ((visits.filterMap Visit.delegation?).map Delegation.record) := by
  induction visits with
  | nil => exact .nil
  | cons v rest ih =>
      cases handed : v.delegation? with
      | none =>
          have quiet : v.isDelegated ≠ true := by
            rw [Ne, Visit.isDelegated_iff, handed]
            simp
          rw [List.filter_cons_of_neg quiet, List.filterMap_cons_none handed]
          exact ih
      | some d =>
          rw [List.filter_cons_of_pos (Visit.isDelegated_iff.mpr ⟨d, handed⟩),
            List.filterMap_cons_some handed, List.map_cons]
          refine .cons ?_ ih
          cases v with
          | takeRetries => cases handed
          | run agent item => exact ⟨agent, item, d, rfl, handed, files_record handed⟩

/-- A run that hands nothing over leaves the store as it is, and one that is over before there is a context
leaves no mark. -/
theorem visit_leaves_no_mark (desk : Desk) (agent : Agent ι) (item : ι) :
    ((∀ phase, (agent.run item).outcome ≠ .delegated phase) → desk.visit (.run agent item) = desk) ∧
      ((agent.run item).outcome = .delegated .transform →
        (desk.visit (.run agent item)).store.retries = desk.store.retries) := by
  have course := run_course agent item
  refine ⟨fun quiet => ?_, fun refused => ?_⟩
  · cases handed : (agent.run item).delegation with
    | none => simp only [visit, ExceptionStore.afterRun, handed]
    | some d => exact absurd ((course.outcome_eq_delegated_iff d.phase).mpr ⟨d, handed, rfl⟩) (quiet _)
  · obtain ⟨d, handed, phase⟩ := (course.outcome_eq_delegated_iff .transform).mp refused
    obtain ⟨-, context⟩ := (course.delegation_eq_some_iff d).mp handed
    rw [phase] at context
    have unidentified : d.correlationId? = none := by rw [Delegation.correlationId?, context.2]; rfl
    simp only [visit, ExceptionStore.afterRun, handed]
    exact ExceptionStore.retries_takeOver_of_none unidentified

/-- Agents may run over items, and the marks may be taken, in any order.  The store then holds one record for
each run in which a fault escaped, in the order of these runs, with the agent and the phase as its source,
the side and the identifier of the context that was handed over, and the safe text of the fault.  Each time
the marks are taken, exactly the identifiers of what was handed over since the last time are returned, each
once.  A run that hands nothing over leaves no trace in the store, and one that ends before there is a
context leaves no mark. -/
theorem delegations_recorded_and_marked_once (visits : List (Visit ι)) :
    List.Forall₂ (fun v r => ∃ agent item d, v = Visit.run agent item ∧
        v.delegation? = some d ∧ Files agent item d r)
      (visits.filter Visit.isDelegated) (after visits).store.records ∧
    (after visits).taken.length = visits.countP Visit.isTaking ∧
    (∀ before rest, visits = before ++ .takeRetries :: rest →
      ∃ ids, (after visits).taken[before.countP Visit.isTaking]? = some ids ∧ ids.Nodup ∧
        ∀ id, id ∈ ids ↔ ∃ d ∈ (recent before).filterMap Visit.delegation?,
          ∃ c, d.context = some c ∧ c.correlationId? = some id) ∧
    ∀ (desk : Desk) (agent : Agent ι) (item : ι),
      ((∀ phase, (agent.run item).outcome ≠ .delegated phase) → desk.visit (.run agent item) = desk) ∧
      ((agent.run item).outcome = .delegated .transform →
        (desk.visit (.run agent item)).store.retries = desk.store.retries) := by
  have kept := kept_after visits
  refine ⟨?_, kept.taken, ?_, visit_leaves_no_mark⟩
  · rw [kept.records]
    exact forall₂_files visits
  · rintro before rest rfl
    have earlier := kept_after before
    refine ⟨_, getElem?_taken before rest, earlier.once, fun id => ?_⟩
    rw [earlier.marks]
    simp only [Delegation.correlationId?, Option.bind_eq_some_iff]

end Desk

end Agent

end Intake
