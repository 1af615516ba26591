/-
Module: Intake.Pipeline.Trace
Purpose: What a trace says about steps and guards, and where in the tree they stand.
Main exports: Pipeline.Execution, Pipeline.executions, Pipeline.Offer, Pipeline.offers, Pipeline.raised,
  Pipeline.child?, Pipeline.Guard, Pipeline.guardsAbove, Pipeline.entered?
-/
import Intake.Pipeline.Basic

namespace Intake

namespace Pipeline

/-- A step that ran: its place, the context it was given, and what it returned. -/
structure Execution where
  path : Path
  step : Step
  input : Context
  result : Except Fault Outcome

/-- A record that a guard offered to its store, and the answer. -/
structure Offer where
  path : Path
  strategy : Strategy
  record : ExceptionRecord
  reply : Except StoreError Unit

def Execution.below (child : Nat) (e : Execution) : Execution := { e with path := child :: e.path }

def Offer.below (child : Nat) (o : Offer) : Offer := { o with path := child :: o.path }

def Event.execution? (e : Event) : Option Execution :=
  match e.action with
  | .ran s input result => some ⟨e.path, s, input, result⟩
  | .offered .. => none

def Event.offer? (e : Event) : Option Offer :=
  match e.action with
  | .ran .. => none
  | .offered strategy record reply => some ⟨e.path, strategy, record, reply⟩

/-- The steps that ran, in the order in which they did. -/
def executions (trace : List Event) : List Execution := trace.filterMap Event.execution?

/-- The records that were offered, in the order in which they were. -/
def offers (trace : List Event) : List Offer := trace.filterMap Event.offer?

/-- The fault of a step that raised one, with the place of the step. -/
def Execution.fault? (e : Execution) : Option (Path × Fault) :=
  match e.result with
  | .ok _ => none
  | .error fault => some (e.path, fault)

/-- The faults that steps raised, with the places of these steps. -/
def raised (trace : List Event) : List (Path × Fault) := (executions trace).filterMap Execution.fault?

/-! ### Places in the tree

A place is the way down from the root, one child number after another. -/

/-- The child of a node with a number. -/
def child? : Pipeline → Nat → Option Pipeline
  | .sequence nodes, i => nodes[i]?
  | .conditional _ yes _, 0 => some yes
  | .conditional _ _ no, 1 => some no
  | .guarded inner _, 0 => some inner
  | _, _ => none

/-- A guard, and its place. -/
structure Guard where
  path : Path
  inner : Pipeline
  strategy : Strategy

def Guard.below (child : Nat) (g : Guard) : Guard := { g with path := child :: g.path }

/-- The node as a guard, if it is one. -/
def guard? : Pipeline → Option Guard
  | .guarded inner strategy => some ⟨[], inner, strategy⟩
  | _ => none

/-- The guards on the way down to a place, outermost first. -/
def guardsAbove : Pipeline → Path → List Guard
  | _, [] => []
  | node, i :: rest =>
    match node.child? i with
    | none => []
    | some child => node.guard?.toList ++ (child.guardsAbove rest).map (.below i)

/-- The context that a child of a node is given when the node runs on a context, if the child runs at
all: in a sequence, the one that the children before it lead to. -/
def childContext? : Pipeline → Context → Nat → Option Context
  | .sequence nodes, c, i =>
    match (executeAll 0 (nodes.take i) (.proceed c)).result with
    | .ok outcome => if outcome.canProceed then some outcome.context else none
    | .error _ => none
  | .conditional choose .., c, 0 => if choose c then some c else none
  | .conditional choose .., c, 1 => if choose c then none else some c
  | .guarded .., c, 0 => some c
  | _, _, _ => none

/-- The node at a place, with the context that it is entered with when the whole runs on a context. -/
def entered? : Pipeline → Context → Path → Option (Pipeline × Context)
  | node, c, [] => some (node, c)
  | node, c, i :: rest =>
    match node.child? i, node.childContext? c i with
    | some child, some c => child.entered? c rest
    | _, _ => none

/-! ### Traces of parts

What a trace tells is read off its events one by one, so it can be put together from what its parts tell. -/

@[simp] theorem executions_append (one two : List Event) :
    executions (one ++ two) = executions one ++ executions two :=
  List.filterMap_append

@[simp] theorem offers_append (one two : List Event) : offers (one ++ two) = offers one ++ offers two :=
  List.filterMap_append

@[simp] theorem executions_below (child : Nat) (trace : List Event) :
    executions (trace.map (.below child)) = (executions trace).map (.below child) := by
  rw [executions, executions, List.filterMap_map, List.map_filterMap]
  congr 1
  funext e
  obtain ⟨path, action⟩ := e
  cases action <;> rfl

@[simp] theorem offers_below (child : Nat) (trace : List Event) :
    offers (trace.map (.below child)) = (offers trace).map (.below child) := by
  rw [offers, offers, List.filterMap_map, List.map_filterMap]
  congr 1
  funext e
  obtain ⟨path, action⟩ := e
  cases action <;> rfl

end Pipeline

end Intake
