/-
Module: Intake.Proofs.Pipeline.Ending
Purpose: The four ways in which an execution of a pipeline ends.
Main exports: Pipeline.Passes, Pipeline.Ending, Pipeline.execute_ending, Pipeline.executeAll_append

An execution proceeds, or a step stops it, or a fault leaves it, or a guard absorbs a fault.  `Ending`
says for each of these which steps ran, on which contexts, and what was offered to a store.  It is proved
once, by induction over the tree; statements about faults and about contexts follow from it.
-/
import Intake.Pipeline.Trace

namespace Intake

namespace Pipeline

/-- Steps that all proceed and lead from one context to another. -/
inductive Passes : Context → List Execution → Context → Prop where
  | nil (c : Context) : Passes c [] c
  | cons {start last : Context} {e : Execution} {outcome : Outcome} {rest : List Execution}
      (given : e.input = start) (returned : e.result = .ok outcome)
      (proceeds : outcome.canProceed = true) (onwards : Passes outcome.context rest last) :
      Passes start (e :: rest) last

namespace Passes

variable {first middle last : Context} {one two : List Execution}

/-- Steps that proceed, and further steps that proceed from there. -/
theorem append (h : Passes first one middle) (onwards : Passes middle two last) :
    Passes first (one ++ two) last := by
  induction h with
  | nil => exact onwards
  | cons given returned proceeds _ ih => exact .cons given returned proceeds (ih onwards)

/-- They proceed below a child as they do on their own. -/
theorem lift (child : Nat) (h : Passes first one last) :
    Passes first (one.map (.below child)) last := by
  induction h with
  | nil c => exact .nil c
  | @cons start last e outcome rest given returned proceeds _ ih =>
      exact .cons (e := e.below child) given returned proceeds ih

end Passes

/-- How the run of a node ends that was entered with one context and has come to another. -/
inductive Ending (node : Pipeline) (entry start : Context) (r : Run) : Prop where
  /-- All steps proceeded, and so does the node. -/
  | proceeded {outcome : Outcome}
      (result : r.result = .ok outcome) (proceeds : outcome.canProceed = true)
      (passes : Passes start (executions r.trace) outcome.context)
      (quiet : offers r.trace = [])
  /-- The last step did not proceed, and its outcome stands. -/
  | stopped {outcome : Outcome} (before : List Execution) (last : Execution)
      (result : r.result = .ok outcome) (stops : outcome.canProceed = false)
      (ran : executions r.trace = before ++ [last]) (passes : Passes start before last.input)
      (returned : last.result = .ok outcome)
      (quiet : offers r.trace = [])
  /-- The last step raised a fault, and there is no guard above it. -/
  | escaped {fault : Fault} (before : List Execution) (last : Execution)
      (result : r.result = .error fault)
      (ran : executions r.trace = before ++ [last]) (passes : Passes start before last.input)
      (raised : last.result = .error fault)
      (quiet : offers r.trace = [])
      (unguarded : node.guardsAbove last.path = [])
  /-- The last step raised a fault, and the innermost guard above it absorbed the fault. -/
  | absorbed {fault : Fault} (before : List Execution) (last : Execution) (guard : Guard)
      (context : Context)
      (result : r.result = .ok (absorbed guard.inner.label context fault))
      (ran : executions r.trace = before ++ [last]) (passes : Passes start before last.input)
      (raised : last.result = .error fault)
      (innermost : (node.guardsAbove last.path).getLast? = some guard)
      (enters : node.entered? entry guard.path =
        some (.guarded guard.inner guard.strategy, context))
      (offered : offers r.trace =
        [⟨guard.path, guard.strategy, recordOf guard.strategy guard.inner.label context fault,
          guard.strategy.store (recordOf guard.strategy guard.inner.label context fault)⟩])

/-! ### Places below a node

Guards and contexts of a place are found child by child on the way to it. -/

/-- The guards above a place are that of the node and those below its child. -/
theorem guardsAbove_cons {node child : Pipeline} {i : Nat} (isChild : node.child? i = some child)
    (path : Path) :
    node.guardsAbove (i :: path) =
      node.guard?.toList ++ (child.guardsAbove path).map (.below i) := by
  rw [guardsAbove, isChild]

/-- The context that a place is entered with is the one that the child is given. -/
theorem entered?_cons {node child : Pipeline} {entry context : Context} {i : Nat}
    (isChild : node.child? i = some child) (given : node.childContext? entry i = some context)
    (path : Path) : node.entered? entry (i :: path) = child.entered? context path := by
  rw [entered?, isChild, given]

namespace Ending

variable {node child : Pipeline} {entry start context : Context} {r : Run} {i : Nat}

/-- The run of a child ends for its parent as it ended for itself, unless the parent is a guard and has
a fault to absorb. -/
theorem lift (h : Ending child context context r) (isChild : node.child? i = some child)
    (given : node.childContext? entry i = some context)
    (plain : ∀ fault, r.result = .error fault → node.guard? = none) :
    Ending node entry context (r.below i) := by
  cases h with
  | proceeded result proceeds passes quiet =>
      refine .proceeded result proceeds ?_ ?_
      · rw [Run.below, executions_below]
        exact passes.lift i
      · rw [Run.below, offers_below, quiet, List.map_nil]
  | stopped before last result stops ran passes returned quiet =>
      refine .stopped (before.map (.below i)) (last.below i) result stops ?_
        (passes.lift i) returned ?_
      · rw [Run.below, executions_below, ran, List.map_append, List.map_singleton]
      · rw [Run.below, offers_below, quiet, List.map_nil]
  | @escaped fault before last result ran passes raised quiet unguarded =>
      refine .escaped (before.map (.below i)) (last.below i) result ?_
        (passes.lift i) raised ?_ ?_
      · rw [Run.below, executions_below, ran, List.map_append, List.map_singleton]
      · rw [Run.below, offers_below, quiet, List.map_nil]
      · show node.guardsAbove (i :: last.path) = []
        rw [guardsAbove_cons isChild, unguarded, plain fault result]
        rfl
  | absorbed before last guard inside result ran passes raised innermost enters offered =>
      refine .absorbed (before.map (.below i)) (last.below i) (guard.below i) inside result ?_
        (passes.lift i) raised ?_ ?_ ?_
      · rw [Run.below, executions_below, ran, List.map_append, List.map_singleton]
      · show (node.guardsAbove (i :: last.path)).getLast? = some (guard.below i)
        rw [guardsAbove_cons isChild, List.getLast?_append, List.getLast?_map, innermost]
        rfl
      · show node.entered? entry (i :: guard.path) = _
        rw [entered?_cons isChild given, enters]
        rfl
      · rw [Run.below, offers_below, offered]
        rfl

/-- Earlier steps that all proceeded change nothing about how a run ends. -/
theorem after (h : Ending node entry context r) {earlier : List Event}
    (passes : Passes start (executions earlier) context) (quiet : offers earlier = []) :
    Ending node entry start (r.after earlier) := by
  cases h with
  | proceeded result proceeds onwards still =>
      refine .proceeded result proceeds ?_ ?_
      · rw [Run.after, executions_append]
        exact passes.append onwards
      · rw [Run.after, offers_append, quiet, still, List.nil_append]
  | stopped before last result stops ran onwards returned still =>
      refine .stopped (executions earlier ++ before) last result stops ?_
        (passes.append onwards) returned ?_
      · rw [Run.after, executions_append, ran, List.append_assoc]
      · rw [Run.after, offers_append, quiet, still, List.nil_append]
  | @escaped fault before last result ran onwards raised still unguarded =>
      refine .escaped (executions earlier ++ before) last result ?_
        (passes.append onwards) raised ?_ unguarded
      · rw [Run.after, executions_append, ran, List.append_assoc]
      · rw [Run.after, offers_append, quiet, still, List.nil_append]
  | absorbed before last guard inside result ran onwards raised innermost enters offered =>
      refine .absorbed (executions earlier ++ before) last guard inside result ?_
        (passes.append onwards) raised innermost enters ?_
      · rw [Run.after, executions_append, ran, List.append_assoc]
      · rw [Run.after, offers_append, quiet, offered, List.nil_append]

/-- A run that proceeds consists of steps that all proceeded, and nothing was offered. -/
theorem passes_of_proceeds (h : Ending node entry start r) {outcome : Outcome}
    (result : r.result = .ok outcome) (proceeds : outcome.canProceed = true) :
    Passes start (executions r.trace) outcome.context ∧ offers r.trace = [] := by
  cases h with
  | proceeded returned _ passes quiet =>
      rw [returned] at result
      injection result with same
      rw [← same]
      exact ⟨passes, quiet⟩
  | stopped _ _ returned stops =>
      rw [returned] at result
      injection result with same
      rw [same, proceeds] at stops
      cases stops
  | escaped _ _ returned =>
      rw [returned] at result
      cases result
  | absorbed _ _ _ _ returned =>
      rw [returned] at result
      injection result with same
      rw [← same] at proceeds
      cases proceeds

/-- A guard absorbs the fault that leaves its inner node, and changes nothing otherwise. -/
theorem guard {inner : Pipeline} {strategy : Strategy} (h : Ending inner context context r) :
    Ending (.guarded inner strategy) context context
      (guardRun strategy inner.label context (r.below 0)) := by
  cases result : r.result with
  | ok outcome =>
      have same : guardRun strategy inner.label context (r.below 0) = r.below 0 := by
        simp only [guardRun, Run.below, result]
      rw [same]
      apply h.lift rfl rfl
      intro fault impossible
      rw [result] at impossible
      cases impossible
  | error fault =>
      cases h with
      | proceeded returned => rw [result] at returned; cases returned
      | stopped _ _ returned => rw [result] at returned; cases returned
      | absorbed _ _ _ _ returned => rw [result] at returned; cases returned
      | @escaped other before last returned ran passes raised quiet unguarded =>
          rw [result] at returned
          injection returned with same
          subst same
          -- No guard stands between this one and the step, so that it is the innermost.
          have here : guardsAbove (.guarded inner strategy) (0 :: last.path) =
              [⟨[], inner, strategy⟩] := by
            have isChild : child? (.guarded inner strategy) 0 = some inner := rfl
            rw [guardsAbove_cons isChild, unguarded]
            rfl
          have result' : (guardRun strategy inner.label context (r.below 0)).result =
              .ok (Pipeline.absorbed inner.label context fault) := by
            simp only [guardRun, Run.below, result]
          refine .absorbed (before.map (.below 0)) (last.below 0) ⟨[], inner, strategy⟩ context
            result' ?_ (passes.lift 0) raised ?_ rfl ?_
          · simp only [guardRun, Run.below, result, executions_append, executions_below, ran]
            simp [executions, Event.execution?]
          · show (guardsAbove (.guarded inner strategy) (0 :: last.path)).getLast? = _
            rw [here]
            rfl
          · simp only [guardRun, Run.below, result, offers_append, offers_below, quiet]
            rfl

end Ending

/-! ### Sequences

The nodes of a sequence are run until one of them does not proceed, whose result is that of the sequence. -/

/-- Nothing in front of a run changes nothing. -/
@[simp] theorem Run.after_nil (r : Run) : r.after [] = r := rfl

/-- What is in front of a run can be put there piece by piece. -/
@[simp] theorem Run.after_after (r : Run) (one two : List Event) :
    (r.after two).after one = r.after (one ++ two) := by
  rw [Run.after, Run.after, Run.after, List.append_assoc]

/-- A node either proceeds or does not let anything follow. -/
theorem proceeds_or_stops (result : Except Fault Outcome) :
    (∃ next, result = .ok next ∧ next.canProceed = true) ∨
      ∀ next, result = .ok next → next.canProceed = false := by
  cases result with
  | error fault =>
      refine Or.inr fun next impossible => ?_
      cases impossible
  | ok outcome =>
      cases goes : outcome.canProceed with
      | true => exact Or.inl ⟨outcome, rfl, goes⟩
      | false =>
          refine Or.inr fun next same => ?_
          injection same with same
          rw [← same, goes]

/-- A first node that proceeds is followed by the others. -/
theorem executeAll_cons {child : Nat} {node : Pipeline} {rest : List Pipeline}
    {outcome next : Outcome} (result : (node.execute outcome.context).result = .ok next)
    (proceeds : next.canProceed = true) :
    executeAll child (node :: rest) outcome =
      (executeAll (child + 1) rest next).after ((node.execute outcome.context).below child).trace := by
  rw [executeAll]
  simp only [Run.below, result, proceeds, if_true]

/-- A first node that does not proceed ends the sequence with its own result. -/
theorem executeAll_cons_of_stop {child : Nat} {node : Pipeline} {rest : List Pipeline}
    {outcome : Outcome}
    (stops : ∀ next, (node.execute outcome.context).result = .ok next → next.canProceed = false) :
    executeAll child (node :: rest) outcome = (node.execute outcome.context).below child := by
  rw [executeAll]
  cases result : (node.execute outcome.context).result with
  | error fault => simp only [Run.below, result]
  | ok next => simp only [Run.below, result, stops next result, Bool.false_eq_true, if_false]

/-- Nodes that proceed are followed by the nodes after them, with the outcome that they end with. -/
theorem executeAll_append {child : Nat} {before rest : List Pipeline} {outcome last : Outcome}
    (result : (executeAll child before outcome).result = .ok last)
    (proceeds : last.canProceed = true) :
    executeAll child (before ++ rest) outcome =
      (executeAll (child + before.length) rest last).after
        (executeAll child before outcome).trace := by
  induction before generalizing child outcome with
  | nil =>
      rw [executeAll] at result ⊢
      injection result with same
      rw [same]
      rfl
  | cons node others ih =>
      rcases proceeds_or_stops (node.execute outcome.context).result with
        ⟨next, first, onwards⟩ | stops
      · rw [executeAll_cons first onwards] at result ⊢
        rw [List.cons_append, executeAll_cons first onwards, ih result, Run.after_after,
          List.length_cons, Nat.add_assoc, Nat.add_comm 1]
        rfl
      · -- The first node would be the last one, and its outcome does not proceed.
        rw [executeAll_cons_of_stop stops] at result
        rw [stops last result] at proceeds
        cases proceeds

/-! ### Execution

The four ways in which a node ends are proved by recursion over the tree, with one case for each kind of node.
-/

mutual

/-- Every execution of a node ends in one of the four ways. -/
theorem execute_ending : ∀ (node : Pipeline) (c : Context), Ending node c c (node.execute c)
  | .step s, c => by
      rw [execute]
      cases returned : s.run c with
      | error fault =>
          exact .escaped [] (⟨[], s, c, .error fault⟩) rfl (by rfl) (.nil c) rfl rfl
            rfl
      | ok outcome =>
          cases goes : outcome.canProceed with
          | true =>
              refine .proceeded rfl goes ?_ rfl
              exact .cons (e := ⟨[], s, c, .ok outcome⟩) rfl rfl goes (.nil _)
          | false =>
              exact .stopped [] (⟨[], s, c, .ok outcome⟩) rfl goes rfl (.nil c) rfl
                rfl
  | .sequence nodes, c => by
      rw [execute]
      exact executeAll_ending c [] nodes (.proceed c) (by rw [executeAll]) rfl
  | .conditional choose yes no, c => by
      rw [execute]
      cases chosen : choose c with
      | true =>
          exact (execute_ending yes c).lift rfl (by simp [childContext?, chosen]) fun _ _ => rfl
      | false =>
          exact (execute_ending no c).lift rfl (by simp [childContext?, chosen]) fun _ _ => rfl
  | .guarded inner strategy, c => by
      rw [execute]
      exact (execute_ending inner c).guard

/-- Every execution of the last nodes of a sequence ends in one of the four ways, once the first nodes
have proceeded. -/
theorem executeAll_ending (c : Context) :
    ∀ (before rest : List Pipeline) (outcome : Outcome),
      (executeAll 0 before (.proceed c)).result = .ok outcome → outcome.canProceed = true →
        Ending (.sequence (before ++ rest)) c outcome.context
          (executeAll before.length rest outcome)
  | before, [], outcome, _, proceeds => by
      rw [executeAll]
      exact .proceeded rfl proceeds (.nil _) rfl
  | before, node :: rest, outcome, result, proceeds => by
      have isChild : child? (.sequence (before ++ node :: rest)) before.length = some node := by
        simp [child?]
      have given : childContext? (.sequence (before ++ node :: rest)) c before.length =
          some outcome.context := by
        simp [childContext?, result, proceeds]
      have first : Ending (.sequence (before ++ node :: rest)) c outcome.context
          ((node.execute outcome.context).below before.length) :=
        (execute_ending node outcome.context).lift isChild given fun _ _ => rfl
      rcases proceeds_or_stops (node.execute outcome.context).result with
        ⟨next, returned, onwards⟩ | stops
      · have known : (executeAll 0 (before ++ [node]) (.proceed c)).result = .ok next := by
          rw [executeAll_append result proceeds, executeAll_cons returned onwards, executeAll]
          rfl
        have others := executeAll_ending c (before ++ [node]) rest next known onwards
        rw [List.append_assoc, List.singleton_append, List.length_append,
          List.length_singleton] at others
        obtain ⟨passes, quiet⟩ := first.passes_of_proceeds returned onwards
        rw [executeAll_cons returned onwards]
        exact others.after passes quiet
      · rw [executeAll_cons_of_stop stops]
        exact first

end

end Pipeline

end Intake
