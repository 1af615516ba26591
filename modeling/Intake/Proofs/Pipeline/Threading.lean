/-
Module: Intake.Proofs.Pipeline.Threading
Purpose: Which steps an execution runs, in which order, and what each hands to the next.
Main exports: Pipeline.leaves_ascending, Pipeline.executions_of_execute,
  Pipeline.Ending.linked, Pipeline.execute_threads_context
-/
import Mathlib.Data.List.Chain
import Intake.Proofs.Pipeline.Ending

namespace Intake

namespace Pipeline

/-! ### The order of the leaves

Places are compared from the root down, child number by child number; a place comes before another
exactly if it stands further left. -/

/-- Below a child the order of places is the same. -/
theorem pairwise_below {paths : List Path} (child : Nat) (h : paths.Pairwise (· < ·)) :
    (paths.map (child :: ·)).Pairwise (· < ·) := by
  rw [List.pairwise_map]
  exact h.imp fun less => List.cons_lt_cons_self.mpr less

/-- The places of leaves below a child begin with it. -/
theorem map_fst_below (child : Nat) (placed : List (Path × Step)) :
    (placed.map fun (p, s) => (child :: p, s)).map Prod.fst =
      (placed.map Prod.fst).map (child :: ·) := by
  rw [List.map_map, List.map_map]
  rfl

/-- The place of a leaf begins with one of the children. -/
theorem first_of_leavesOfAll {child : Nat} {path : Path} (nodes : List Pipeline)
    (h : path ∈ (leavesOfAll child nodes).map Prod.fst) :
    ∃ first rest, child ≤ first ∧ path = first :: rest := by
  induction nodes generalizing child with
  | nil => simp [leavesOfAll] at h
  | cons node others ih =>
      rw [leavesOfAll, List.map_append, map_fst_below, List.mem_append] at h
      rcases h with here | later
      · obtain ⟨rest, -, rfl⟩ := List.mem_map.mp here
        exact ⟨child, rest, Nat.le_refl child, rfl⟩
      · obtain ⟨first, rest, after, same⟩ := ih later
        exact ⟨first, rest, Nat.le_of_succ_le after, same⟩

mutual

/-- The leaves stand in the order of their places, and no place comes twice. -/
theorem leaves_ascending : ∀ node : Pipeline, (node.leaves.map Prod.fst).Pairwise (· < ·)
  | .step s => by
      rw [leaves]
      exact List.pairwise_singleton _ _
  | .sequence nodes => by
      rw [leaves]
      exact leavesOfAll_ascending 0 nodes
  | .conditional choose yes no => by
      rw [leaves, List.map_append, map_fst_below, map_fst_below]
      refine List.pairwise_append.mpr
        ⟨pairwise_below 0 (leaves_ascending yes), pairwise_below 1 (leaves_ascending no), ?_⟩
      intro a ha b hb
      obtain ⟨p, -, rfl⟩ := List.mem_map.mp ha
      obtain ⟨q, -, rfl⟩ := List.mem_map.mp hb
      exact List.cons_lt_cons_iff.mpr (Or.inl Nat.zero_lt_one)
  | .guarded inner strategy => by
      rw [leaves, map_fst_below]
      exact pairwise_below 0 (leaves_ascending inner)

/-- The same for the nodes of a sequence. -/
theorem leavesOfAll_ascending : ∀ (child : Nat) (nodes : List Pipeline),
    ((leavesOfAll child nodes).map Prod.fst).Pairwise (· < ·)
  | child, [] => by
      rw [leavesOfAll]
      exact List.Pairwise.nil
  | child, node :: rest => by
      rw [leavesOfAll, List.map_append, map_fst_below]
      refine List.pairwise_append.mpr
        ⟨pairwise_below child (leaves_ascending node), leavesOfAll_ascending (child + 1) rest, ?_⟩
      intro a ha b hb
      obtain ⟨p, -, rfl⟩ := List.mem_map.mp ha
      obtain ⟨later, q, after, rfl⟩ := first_of_leavesOfAll rest hb
      exact List.cons_lt_cons_iff.mpr (Or.inl after)

end

/-! ### The steps that run are leaves, in their order

By recursion over the tree: a node runs some of its leaves from left to right, and each does what the step of
that leaf does. -/

/-- The leaf that a step stands at. -/
def Execution.leaf (e : Execution) : Path × Step := (e.path, e.step)

/-- The result is the one that the step has for its input. -/
def Execution.IsGenuine (e : Execution) : Prop := e.result = e.step.run e.input

/-- The leaves of steps that ran below a child are below it, too. -/
theorem map_leaf_below (child : Nat) (ran : List Execution) :
    (ran.map (.below child)).map Execution.leaf =
      (ran.map Execution.leaf).map fun (p, s) => (child :: p, s) := by
  rw [List.map_map, List.map_map]
  rfl

/-- A guard neither adds steps nor hides any. -/
theorem executions_guardRun (strategy : Strategy) (source : String) (entry : Context) (r : Run) :
    executions (guardRun strategy source entry r).trace = executions r.trace := by
  rw [guardRun]
  split
  · rfl
  · rw [executions_append]
    exact List.append_nil _

/-- The steps that ran are some of the leaves, in their order, and did what they do. -/
structure Runs (leaves : List (Path × Step)) (ran : List Execution) : Prop where
  sublist : (ran.map Execution.leaf).Sublist leaves
  genuine : ∀ e ∈ ran, e.IsGenuine

namespace Runs

variable {leaves others : List (Path × Step)} {ran more : List Execution}

/-- Below a child the same steps have run. -/
theorem below (h : Runs leaves ran) (child : Nat) :
    Runs (leaves.map fun (p, s) => (child :: p, s)) (ran.map (.below child)) where
  sublist := by
    rw [map_leaf_below]
    exact h.sublist.map _
  genuine := by
    intro e he
    obtain ⟨inside, member, rfl⟩ := List.mem_map.mp he
    exact h.genuine inside member

/-- Steps of one node and of those behind it. -/
theorem append (h : Runs leaves ran) (onwards : Runs others more) :
    Runs (leaves ++ others) (ran ++ more) where
  sublist := by
    rw [List.map_append]
    exact h.sublist.append onwards.sublist
  genuine := by
    intro e he
    rcases List.mem_append.mp he with here | later
    · exact h.genuine e here
    · exact onwards.genuine e later

/-- Leaves behind them may be left out. -/
theorem left (h : Runs leaves ran) (others : List (Path × Step)) : Runs (leaves ++ others) ran :=
  ⟨h.sublist.trans (List.sublist_append_left _ _), h.genuine⟩

/-- So may leaves in front of them. -/
theorem right (h : Runs leaves ran) (others : List (Path × Step)) : Runs (others ++ leaves) ran :=
  ⟨h.sublist.trans (List.sublist_append_right _ _), h.genuine⟩

end Runs

mutual

/-- The steps that a node runs are leaves of it, in their order. -/
theorem executions_of_execute : ∀ (node : Pipeline) (c : Context),
    Runs node.leaves (executions (node.execute c).trace)
  | .step s, c => by
      rw [execute, leaves]
      refine ⟨List.Sublist.refl _, ?_⟩
      intro e he
      rw [List.mem_singleton.mp he]
      rfl
  | .sequence nodes, c => by
      rw [execute, leaves]
      exact executions_of_executeAll 0 nodes (.proceed c)
  | .conditional choose yes no, c => by
      rw [execute, leaves]
      split
      · rw [Run.below, executions_below]
        exact ((executions_of_execute yes c).below 0).left _
      · rw [Run.below, executions_below]
        exact ((executions_of_execute no c).below 1).right _
  | .guarded inner strategy, c => by
      rw [execute, leaves, executions_guardRun, Run.below, executions_below]
      exact (executions_of_execute inner c).below 0

/-- So are those of the nodes of a sequence. -/
theorem executions_of_executeAll : ∀ (child : Nat) (nodes : List Pipeline) (outcome : Outcome),
    Runs (leavesOfAll child nodes) (executions (executeAll child nodes outcome).trace)
  | child, [], outcome => by
      rw [executeAll, leavesOfAll]
      exact ⟨List.Sublist.refl _, by simp [executions]⟩
  | child, node :: rest, outcome => by
      have first := (executions_of_execute node outcome.context).below child
      rw [leavesOfAll]
      rcases proceeds_or_stops (node.execute outcome.context).result with
        ⟨next, returned, onwards⟩ | stops
      · rw [executeAll_cons returned onwards, Run.after, Run.below, executions_append,
          executions_below]
        exact first.append (executions_of_executeAll (child + 1) rest next)
      · rw [executeAll_cons_of_stop stops, Run.below, executions_below]
        exact first.left _

end

/-! ### From step to step

The context goes from each step to the next.  At the end it is the one that the last step returned, unless a
guard has put its own there. -/

/-- A step proceeded. -/
def Execution.Proceeds (e : Execution) : Prop :=
  ∃ outcome, e.result = .ok outcome ∧ outcome.canProceed = true

/-- A step proceeded, and the next one was given the context that it returned. -/
def Execution.HandsTo (a b : Execution) : Prop :=
  ∃ outcome, a.result = .ok outcome ∧ outcome.canProceed = true ∧ b.input = outcome.context

/-- The context after steps that ran: the one that the last of them returned, or the one before them
if there is none. -/
def IsLeftBy (start : Context) (ran : List Execution) (c : Context) : Prop :=
  match ran.getLast? with
  | none => c = start
  | some last => ∃ outcome, last.result = .ok outcome ∧ c = outcome.context

namespace Passes

variable {start c : Context} {ran : List Execution} {last : Execution}

/-- Every one of these steps proceeded. -/
theorem proceeds (h : Passes start ran c) : ∀ e ∈ ran, e.Proceeds := by
  induction h with
  | nil => simp
  | cons _ returned goes _ ih =>
      intro e he
      rcases List.mem_cons.mp he with rfl | later
      · exact ⟨_, returned, goes⟩
      · exact ih e later

theorem input_of_head? (h : Passes start ran c) {first : Execution}
    (head : ran.head? = some first) : first.input = start := by
  cases h with
  | nil => cases head
  | cons given =>
      injection head with same
      rw [← same, given]

/-- Each step was given what the one before it returned. -/
theorem isChain (h : Passes start ran c) : ran.IsChain Execution.HandsTo := by
  induction h with
  | nil => exact List.isChain_nil
  | cons _ returned goes onwards ih =>
      refine List.isChain_cons.mpr ⟨?_, ih⟩
      intro next head
      exact ⟨_, returned, goes, onwards.input_of_head? head⟩

/-- The last step left the context at the end. -/
theorem isLeftBy (h : Passes start ran c) : IsLeftBy start ran c := by
  induction h with
  | nil => rfl
  | @cons start c e outcome rest _ returned _ onwards ih =>
      cases rest with
      | nil =>
          cases onwards with
          | nil => exact ⟨outcome, returned, rfl⟩
      | cons next others =>
          rw [IsLeftBy, List.getLast?_cons_cons]
          exact ih

/-- A step that is given the context that the steps before it lead to is linked to them. -/
theorem linked (h : Passes start ran c) (given : last.input = c) :
    (ran ++ [last]).IsChain Execution.HandsTo := by
  induction h with
  | nil => exact List.isChain_singleton last
  | @cons start c e outcome rest _ returned goes onwards ih =>
      cases rest with
      | nil =>
          cases onwards with
          | nil => exact List.isChain_pair.mpr ⟨outcome, returned, goes, given⟩
      | cons next others =>
          exact List.isChain_cons_cons.mpr
            ⟨⟨outcome, returned, goes, onwards.input_of_head? rfl⟩, ih given⟩

theorem input_of_head?_append (h : Passes start ran last.input) {first : Execution}
    (head : (ran ++ [last]).head? = some first) : first.input = start := by
  cases h with
  | nil =>
      injection head with same
      rw [same]
  | cons given =>
      injection head with same
      rw [← same, given]

end Passes

namespace Ending

variable {node : Pipeline} {c : Context} {r : Run}

/-- All steps proceeded, or all but the last one. -/
theorem reaches (h : Ending node c c r) :
    (∃ last, Passes c (executions r.trace) last) ∨
      ∃ before last, executions r.trace = before ++ [last] ∧ Passes c before last.input := by
  cases h with
  | proceeded _ _ passes => exact Or.inl ⟨_, passes⟩
  | stopped before last _ _ ran passes => exact Or.inr ⟨before, last, ran, passes⟩
  | escaped before last _ ran passes => exact Or.inr ⟨before, last, ran, passes⟩
  | absorbed before last _ _ _ ran passes => exact Or.inr ⟨before, last, ran, passes⟩

/-- The first step was given the context of the whole. -/
theorem input_of_head? (h : Ending node c c r) {first : Execution}
    (head : (executions r.trace).head? = some first) : first.input = c := by
  rcases h.reaches with ⟨last, passes⟩ | ⟨before, last, ran, passes⟩
  · exact passes.input_of_head? head
  · rw [ran] at head
    exact passes.input_of_head?_append head

/-- Every step but the last proceeded, and the next one was given what it returned. -/
theorem linked (h : Ending node c c r) : (executions r.trace).IsChain Execution.HandsTo := by
  rcases h.reaches with ⟨last, passes⟩ | ⟨before, last, ran, passes⟩
  · exact passes.isChain
  · rw [ran]
    exact passes.linked rfl

/-- The whole proceeds exactly if all its steps did. -/
theorem proceeds_iff (h : Ending node c c r) :
    (∃ outcome, r.result = .ok outcome ∧ outcome.canProceed = true) ↔
      ∀ e ∈ executions r.trace, e.Proceeds := by
  constructor
  · rintro ⟨outcome, result, goes⟩
    exact (h.passes_of_proceeds result goes).1.proceeds
  · intro all
    cases h with
    | proceeded result goes => exact ⟨_, result, goes⟩
    | stopped before last _ stops ran _ returned =>
        obtain ⟨outcome, same, goes⟩ := all last (by rw [ran]; simp)
        rw [returned] at same
        injection same with same
        rw [same, goes] at stops
        cases stops
    | escaped before last _ ran _ raised =>
        obtain ⟨outcome, same, -⟩ := all last (by rw [ran]; simp)
        rw [raised] at same
        cases same
    | absorbed before last _ _ _ ran _ raised =>
        obtain ⟨outcome, same, -⟩ := all last (by rw [ran]; simp)
        rw [raised] at same
        cases same

/-- Unless a guard offered a record, the context at the end is the one that the last step returned. -/
theorem isLeftBy (h : Ending node c c r) (quiet : offers r.trace = []) {outcome : Outcome}
    (result : r.result = .ok outcome) : IsLeftBy c (executions r.trace) outcome.context := by
  cases h with
  | proceeded returned _ passes =>
      rw [returned] at result
      injection result with same
      rw [← same]
      exact passes.isLeftBy
  | stopped before last ended _ ran _ returned =>
      rw [ended] at result
      injection result with same
      rw [ran, IsLeftBy, List.getLast?_concat]
      exact ⟨outcome, by rw [← same]; exact returned, rfl⟩
  | escaped _ _ ended =>
      rw [ended] at result
      cases result
  | absorbed _ _ _ _ _ _ _ _ _ _ offered =>
      rw [offered] at quiet
      cases quiet

end Ending

/-- The steps that run are leaves of the tree, from left to right and none twice; the first is given
the context of the whole, and each other one the context that the step before it returned when that
proceeded; the whole proceeds exactly if all of them do; and unless a guard offered a record, a context
at the end is the one that the last step left. -/
theorem execute_threads_context (node : Pipeline) (c : Context) :
    let run := node.execute c
    let ran := executions run.trace
    (ran.map Execution.leaf).Sublist node.leaves ∧
      (ran.map Execution.path).Pairwise (· < ·) ∧
      (∀ e ∈ ran, e.result = e.step.run e.input) ∧
      (∀ first, ran.head? = some first → first.input = c) ∧
      ran.IsChain Execution.HandsTo ∧
      ((∃ outcome, run.result = .ok outcome ∧ outcome.canProceed = true) ↔
        ∀ e ∈ ran, e.Proceeds) ∧
      (offers run.trace = [] →
        ∀ outcome, run.result = .ok outcome → IsLeftBy c ran outcome.context) := by
  intro run ran
  have ending : Ending node c c run := execute_ending node c
  have runs : Runs node.leaves ran := executions_of_execute node c
  refine ⟨runs.sublist, ?_, runs.genuine, ?_, ending.linked, ending.proceeds_iff, ?_⟩
  · have places := runs.sublist.map Prod.fst
    rw [List.map_map] at places
    exact (leaves_ascending node).sublist places
  · intro first head
    exact ending.input_of_head? head
  · intro quiet outcome result
    exact ending.isLeftBy quiet result

end Pipeline

end Intake
