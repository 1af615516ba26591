/-
Module: Intake.Proofs.Pipeline.Fate
Purpose: The fault of an execution, if it raises one, is absorbed by a guard or escapes.
Main exports: Pipeline.Fate, Pipeline.execute_fate, Pipeline.path_of_mem_guardsAbove,
  Pipeline.result_of_guarded
-/
import Intake.Proofs.Pipeline.Disposition

namespace Intake

namespace Pipeline

/-- The ways in which an execution deals with faults: there is none, or one that no guard stands above, or
one that is absorbed. -/
inductive Fate (node : Pipeline) (r : Run) : Prop where
  | quiet {outcome : Outcome} (none_raised : raised r.trace = []) (none_offered : offers r.trace = [])
      (result : r.result = .ok outcome)
  | escaped {path : Path} {fault : Fault} (one_raised : raised r.trace = [(path, fault)])
      (none_offered : offers r.trace = []) (result : r.result = .error fault)
  | absorbed {path : Path} {fault : Fault} {guard : Guard} {entry : Context}
      (one_raised : raised r.trace = [(path, fault)])
      (above : guard ∈ node.guardsAbove path)
      (offered : offers r.trace =
        [⟨guard.path, guard.strategy, recordOf guard.strategy guard.inner.label entry fault,
          guard.strategy.store (recordOf guard.strategy guard.inner.label entry fault)⟩])
      (result : r.result = .ok (Pipeline.absorbed guard.inner.label entry fault))

/-- Every execution deals with faults in one of these ways. -/
theorem execute_fate (node : Pipeline) (c : Context) : Fate node (node.execute c) := by
  cases execute_ending node c with
  | proceeded result _ passes quiet =>
      exact .quiet (by rw [raised, passes.filterMap_fault?]) quiet result
  | stopped before last result _ ran passes returned quiet =>
      exact .quiet (passes.raised_of_ok ran returned) quiet result
  | escaped before last result ran passes failed quiet _ =>
      exact .escaped (passes.raised_of_error ran failed) quiet result
  | absorbed before last guard entry result ran passes failed innermost _ offered =>
      have above : guard ∈ node.guardsAbove last.path := List.mem_of_getLast? innermost
      exact .absorbed (passes.raised_of_error ran failed) above offered result

/-- A guard above a place stands on the way down to it. -/
theorem path_of_mem_guardsAbove {node : Pipeline} {path : Path} {guard : Guard}
    (above : guard ∈ node.guardsAbove path) : guard.path <+: path := by
  induction path generalizing node guard with
  | nil =>
      rw [guardsAbove] at above
      cases above
  | cons i rest ih =>
      rw [guardsAbove] at above
      cases isChild : node.child? i with
      | none =>
          rw [isChild] at above
          cases above
      | some child =>
          rw [isChild] at above
          rcases List.mem_append.mp above with here | deeper
          · have top : guard.path = [] := by
              rw [Option.mem_toList, guard?.eq_def] at here
              split at here
              · injection here with same
                rw [← same]
              · cases here
            rw [top]
            exact List.nil_prefix
          · obtain ⟨inside, member, rfl⟩ := List.mem_map.mp deeper
            exact List.cons_prefix_cons.mpr ⟨rfl, ih member⟩

/-- No fault leaves a guard. -/
theorem result_of_guarded {node : Pipeline} (isGuard : node.guard?.isSome = true) (c : Context) :
    ∃ outcome, (node.execute c).result = .ok outcome := by
  cases node with
  | step => cases isGuard
  | sequence => cases isGuard
  | conditional => cases isGuard
  | guarded inner strategy =>
      rw [execute, guardRun]
      split
      · next outcome result => exact ⟨outcome, result⟩
      · exact ⟨_, rfl⟩

end Pipeline

end Intake
