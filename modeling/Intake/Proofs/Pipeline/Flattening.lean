/-
Module: Intake.Proofs.Pipeline.Flattening
Purpose: A sequence inside a sequence does what its nodes do in its place.
Main exports: Pipeline.executeAll_moved, Pipeline.executeAll_nested, Pipeline.execute_nested,
  Pipeline.nested_sequence_flattens, Pipeline.execute_closed_by_empty

Both shapes hand the same contexts on.  They differ in one point only: a sequence begins with an outcome of
its own, which succeeds and proceeds.  Every node that runs replaces it, so that it is seen in the end only
where nothing runs any more.
-/
import Intake.Pipeline.Builder
import Intake.Pipeline.Moving
import Intake.Pipeline.Probe
import Intake.Proofs.Pipeline.Ending

namespace Intake

namespace Pipeline

/-! ### Nodes at other places

Nodes that are moved to other places do the same there.  Only the places that their traces tell are others. -/

/-- Nodes that have all moved by the same way run as they would at their new places. -/
theorem executeAll_moved {move : Path → Path} {nodes : List Pipeline} {child target : Nat}
    (moves : ∀ i < nodes.length, ∀ path, move ((child + i) :: path) = (target + i) :: path)
    (outcome : Outcome) :
    (executeAll child nodes outcome).moved move = executeAll target nodes outcome := by
  induction nodes generalizing child target outcome with
  | nil => rw [executeAll, executeAll]; rfl
  | cons node rest ih =>
      have first : ((node.execute outcome.context).below child).moved move =
          (node.execute outcome.context).below target := by
        rw [Run.moved_below]
        have here : ∀ path, move (child :: path) = target :: path :=
          moves 0 (Nat.zero_lt_succ _)
        simp only [here]
        rfl
      have others : ∀ i < rest.length, ∀ path,
          move ((child + 1 + i) :: path) = (target + 1 + i) :: path := by
        intro i less path
        have next := moves (i + 1) (Nat.succ_lt_succ less) path
        rwa [Nat.add_comm i 1, ← Nat.add_assoc, ← Nat.add_assoc] at next
      rcases proceeds_or_stops (node.execute outcome.context).result with
        ⟨next, returned, onwards⟩ | stops
      · rw [executeAll_cons returned onwards, executeAll_cons returned onwards, Run.moved_after,
          ih others, ← first]
        rfl
      · rw [executeAll_cons_of_stop stops, executeAll_cons_of_stop stops, first]

/-- The leaves move with the nodes. -/
theorem leavesOfAll_moved (move : Path → Path) {nodes : List Pipeline} {child target : Nat}
    (moves : ∀ i < nodes.length, ∀ path, move ((child + i) :: path) = (target + i) :: path) :
    (leavesOfAll child nodes).map (Prod.map move id) = leavesOfAll target nodes := by
  induction nodes generalizing child target with
  | nil => rw [leavesOfAll, leavesOfAll]; rfl
  | cons node rest ih =>
      have here : ∀ path, move (child :: path) = target :: path := moves 0 (Nat.zero_lt_succ _)
      have others : ∀ i < rest.length, ∀ path,
          move ((child + 1 + i) :: path) = (target + 1 + i) :: path := by
        intro i less path
        have next := moves (i + 1) (Nat.succ_lt_succ less) path
        rwa [Nat.add_comm i 1, ← Nat.add_assoc, ← Nat.add_assoc] at next
      rw [leavesOfAll, leavesOfAll, List.map_append, ih others, List.map_map]
      congr 1
      apply List.map_congr_left
      rintro ⟨path, s⟩ -
      exact congrArg (·, s) (here path)

/-- The leaves of nodes, one behind the other. -/
theorem leavesOfAll_append (child : Nat) (one two : List Pipeline) :
    leavesOfAll child (one ++ two) =
      leavesOfAll child one ++ leavesOfAll (child + one.length) two := by
  induction one generalizing child with
  | nil => rw [leavesOfAll]; rfl
  | cons node rest ih =>
      rw [List.cons_append, leavesOfAll, leavesOfAll, ih, List.append_assoc, List.length_cons,
        Nat.add_assoc, Nat.add_comm 1]

/-! ### Where a sequence begins

A sequence starts from the context of the outcome before it, and a sequence of nothing hands this outcome on.
-/

/-- Of the outcome before them only the context matters to nodes, if there are any. -/
theorem executeAll_proceed {nodes : List Pipeline} (nonempty : nodes ≠ []) (child : Nat)
    (outcome : Outcome) :
    executeAll child nodes (.proceed outcome.context) = executeAll child nodes outcome := by
  obtain ⟨node, rest, rfl⟩ := List.exists_cons_of_ne_nil nonempty
  rw [executeAll, executeAll]
  rfl

/-- Nodes that do not proceed keep others from running. -/
theorem executeAll_append_of_stop {child : Nat} {before : List Pipeline} (rest : List Pipeline)
    {outcome : Outcome}
    (stops : ∀ last, (executeAll child before outcome).result = .ok last → last.canProceed = false)
    (begins : outcome.canProceed = true) :
    executeAll child (before ++ rest) outcome = executeAll child before outcome := by
  induction before generalizing child outcome with
  | nil =>
      have ended : outcome.canProceed = false := stops outcome (by rw [executeAll])
      rw [begins] at ended
      cases ended
  | cons node others ih =>
      rcases proceeds_or_stops (node.execute outcome.context).result with
        ⟨next, returned, onwards⟩ | first_stops
      · rw [executeAll_cons returned onwards] at stops
        rw [List.cons_append, executeAll_cons returned onwards, executeAll_cons returned onwards,
          ih stops onwards]
      · rw [List.cons_append, executeAll_cons_of_stop first_stops,
          executeAll_cons_of_stop first_stops]

/-! ### A sequence among the nodes

With the two lemmas above, an inner sequence and its nodes in its place are run side by side. -/

section Nested

variable {inner rest : List Pipeline} (filled : inner ≠ [] ∨ rest ≠ [])
include filled

/-- A sequence at the front does what its nodes do at the front. -/
theorem executeAll_nested (before : Nat) {outcome : Outcome} (begins : outcome.canProceed = true) :
    (executeAll before (.sequence inner :: rest) outcome).moved
        (flatPlace before inner.length) =
      executeAll before (inner ++ rest) outcome := by
  -- The places of the inner nodes, and those of the nodes behind.
  have inside : ∀ o, ((executeAll 0 inner o).below before).moved (flatPlace before inner.length) =
      executeAll before inner o := by
    intro o
    rw [Run.moved_below]
    exact executeAll_moved (fun i _ path => flatPlace_inside before inner.length i path) o
  have behind : ∀ o, (executeAll (before + 1) rest o).moved (flatPlace before inner.length) =
      executeAll (before + inner.length) rest o := fun o =>
    executeAll_moved (fun i _ path => flatPlace_behind before inner.length i path) o
  have first : (Pipeline.sequence inner).execute outcome.context =
      executeAll 0 inner (.proceed outcome.context) := by rw [execute]
  cases inner with
  | nil =>
      have alone : ((Pipeline.sequence []).execute outcome.context).result =
          .ok (.proceed outcome.context) := by rw [first, executeAll]
      have others : rest ≠ [] := filled.resolve_left fun h => h rfl
      rw [executeAll_cons alone rfl, Run.moved_after, behind, first, executeAll]
      exact executeAll_proceed others before outcome
  | cons node others =>
      have same := executeAll_proceed (List.cons_ne_nil node others) before outcome
      have result : ((Pipeline.sequence (node :: others)).execute outcome.context).result =
          (executeAll before (node :: others) outcome).result := by
        rw [first, ← same, ← inside]
        rfl
      rcases proceeds_or_stops (executeAll before (node :: others) outcome).result with
        ⟨next, returned, onwards⟩ | stops
      · rw [executeAll_cons (result.trans returned) onwards, Run.moved_after, behind,
          executeAll_append returned onwards, ← same, ← inside, first]
        rfl
      · rw [executeAll_cons_of_stop (by rw [result]; exact stops), first, inside, same,
          executeAll_append_of_stop rest stops begins]

/-- A sequence anywhere among the nodes of another does what its nodes do in its place. -/
theorem execute_nested (before : List Pipeline) (c : Context) :
    ((Pipeline.sequence (before ++ [.sequence inner] ++ rest)).execute c).moved
        (flatPlace before.length inner.length) =
      (Pipeline.sequence (before ++ inner ++ rest)).execute c := by
  have stays : ∀ o, (executeAll 0 before o).moved (flatPlace before.length inner.length) =
      executeAll 0 before o := fun o =>
    executeAll_moved (fun _ less path => flatPlace_before inner.length less path) o
  rw [execute, execute, List.append_assoc, List.append_assoc, List.singleton_append]
  rcases proceeds_or_stops (executeAll 0 before (.proceed c)).result with
    ⟨next, returned, onwards⟩ | stops
  · have earlier : (executeAll 0 before (.proceed c)).trace.map
        (.moved (flatPlace before.length inner.length)) =
          (executeAll 0 before (.proceed c)).trace := congrArg Run.trace (stays (.proceed c))
    rw [executeAll_append returned onwards, executeAll_append returned onwards, Run.moved_after,
      Nat.zero_add, executeAll_nested filled before.length onwards, earlier]
  · rw [executeAll_append_of_stop _ stops rfl, executeAll_append_of_stop _ stops rfl, stays]

end Nested

/-- The steps of both shapes are the same from left to right. -/
theorem leaves_nested (before inner rest : List Pipeline) :
    (Pipeline.sequence (before ++ [.sequence inner] ++ rest)).leaves.map
        (Prod.map (flatPlace before.length inner.length) id) =
      (Pipeline.sequence (before ++ inner ++ rest)).leaves := by
  have stays : (leavesOfAll 0 before).map (Prod.map (flatPlace before.length inner.length) id) =
      leavesOfAll 0 before :=
    leavesOfAll_moved _ fun _ less path => flatPlace_before inner.length less path
  have inside : (leavesOfAll before.length [.sequence inner]).map
      (Prod.map (flatPlace before.length inner.length) id) =
        leavesOfAll before.length inner := by
    rw [leavesOfAll, leaves, leavesOfAll, List.append_nil, List.map_map]
    exact leavesOfAll_moved (fun p => flatPlace before.length inner.length (before.length :: p))
      fun i _ path => flatPlace_inside before.length inner.length i path
  have behind : (leavesOfAll (before.length + 1) rest).map
      (Prod.map (flatPlace before.length inner.length) id) =
        leavesOfAll (before.length + inner.length) rest :=
    leavesOfAll_moved _ fun i _ path => flatPlace_behind before.length inner.length i path
  rw [leaves, leaves, List.append_assoc, List.append_assoc, leavesOfAll_append, leavesOfAll_append,
    leavesOfAll_append, leavesOfAll_append, Nat.zero_add, List.length_singleton, List.map_append,
    List.map_append, stays, inside, behind]

/-- A tree that runs as another one, with its places moved, acts like it. -/
theorem actsLike_of_moved {one two : Pipeline} (move : Path → Path)
    (moved : ∀ c, (one.execute c).moved move = two.execute c) : ActsLike one two := by
  intro c
  rw [← moved c, Run.moved_result, Run.map_action_moved]
  exact ⟨rfl, rfl⟩

/-- A sequence inside a sequence that holds nodes, or that other nodes follow, can give way to its own nodes:
the steps of the tree are the same from left to right, and whatever happens on a context, what is returned
included, happens at the corresponding places.  So it makes no difference to a builder whether a sequence is
added as one node or node by node. -/
theorem nested_sequence_flattens (before inner rest : List Pipeline)
    (filled : inner ≠ [] ∨ rest ≠ []) :
    let nested := Pipeline.sequence (before ++ [.sequence inner] ++ rest)
    let flat := Pipeline.sequence (before ++ inner ++ rest)
    let move := flatPlace before.length inner.length
    ActsLike nested flat ∧
      nested.leaves.map (fun (place, s) => (move place, s)) = flat.leaves ∧
      (∀ c, ((nested.execute c).trace.map fun e => (move e.path, e.action)) =
        (flat.execute c).trace.map fun e => (e.path, e.action)) ∧
      ∀ b : Builder, b.nodes = before →
        ActsLike ((b.node (.sequence inner)).nodesAdded rest).build
          ((b.nodesAdded inner).nodesAdded rest).build := by
  intro nested flat move
  have moved : ∀ c, (nested.execute c).moved move = flat.execute c := execute_nested filled before
  have alike : ActsLike nested flat := actsLike_of_moved move moved
  refine ⟨alike, leaves_nested before inner rest, ?_, ?_⟩
  · intro c
    rw [← moved c, Run.moved, List.map_map]
    rfl
  · intro b begun
    have as_node : ((b.node (.sequence inner)).nodesAdded rest).build = nested := by
      rw [Builder.build, Builder.nodes_nodesAdded, Builder.node, begun]
    have node_by_node : ((b.nodesAdded inner).nodesAdded rest).build = flat := by
      rw [Builder.build, Builder.nodes_nodesAdded, Builder.nodes_nodesAdded, begun]
    rw [as_node, node_by_node]
    exact alike

/-- A step that fails and may proceed, with an empty sequence and another step behind it. -/
theorem empty_sequence_gives_way :
    let failing := Pipeline.step (.returning "probe" false true none none)
    let logging := Pipeline.step .logContext
    (([] : List Pipeline) ≠ [] ∨ [logging] ≠ []) ∧
      ActsLike (.sequence [failing, .sequence [], logging]) (.sequence [failing, logging]) := by
  intro failing logging
  have filled : ([] : List Pipeline) ≠ [] ∨ [logging] ≠ [] := Or.inr (List.cons_ne_nil _ _)
  exact ⟨filled, (nested_sequence_flattens [failing] [] [logging] filled).1⟩

/-- Where nothing follows an empty sequence, its outcome is seen: a failure that may proceed is forgotten. -/
theorem execute_closed_by_empty (before : List Pipeline) (c : Context) :
    let run := (Pipeline.sequence before).execute c
    (Pipeline.sequence (before ++ [.sequence []])).execute c =
      { run with
        result := run.result.map fun outcome =>
          if outcome.canProceed then .proceed outcome.context else outcome } := by
  intro run
  have ran : run = executeAll 0 before (.proceed c) := by rw [← execute]
  rw [execute, ran]
  rcases proceeds_or_stops (executeAll 0 before (.proceed c)).result with
    ⟨next, returned, onwards⟩ | stops
  · have empty : ((Pipeline.sequence []).execute next.context).result =
        .ok (.proceed next.context) := by rw [execute, executeAll]
    rw [executeAll_append returned onwards, executeAll_cons empty rfl, executeAll, execute,
      executeAll, returned]
    simp [Run.after, Run.below, Except.map, onwards]
  · rw [executeAll_append_of_stop _ stops rfl]
    cases returned : (executeAll 0 before (.proceed c)).result with
    | error fault =>
        rw [Except.map, ← returned]
    | ok outcome =>
        rw [Except.map, if_neg (by rw [stops outcome returned]; exact Bool.false_ne_true), ← returned]

end Pipeline

end Intake
