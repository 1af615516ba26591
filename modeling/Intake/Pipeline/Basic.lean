/-
Module: Intake.Pipeline.Basic
Purpose: Pipelines as trees of steps, sequences, branches and guards, and their execution.
Main exports: Strategy, Pipeline, Pipeline.label, Pipeline.isEmpty, Pipeline.leaves, Pipeline.Event,
  Pipeline.Run, Pipeline.execute

An execution gives its result together with everything that happened, in order: each step that ran, with
the context it was given and what it returned, and each record that a guard offered to its store.
-/
import Intake.Exception.Record
import Intake.Pipeline.Step

namespace Intake

/-- How a guard files a fault: the side it belongs to, the identifier it is filed under, and where the
record goes. -/
structure Strategy where
  side : Side
  correlationId? : Context → Option String
  store : ExceptionRecord → Except StoreError Unit

namespace Strategy

/-- Files faults under the received message. -/
def inbound (store : ExceptionRecord → Except StoreError Unit) : Strategy :=
  ⟨.inbound, Context.receivedId, store⟩

/-- Files faults under the message being sent. -/
def outbound (store : ExceptionRecord → Except StoreError Unit) : Strategy :=
  ⟨.outbound, Context.sendingId, store⟩

end Strategy

/-- A pipeline.  The choice of a branch is made once, on the context that the branch is given. -/
inductive Pipeline where
  | step (s : Step)
  | sequence (nodes : List Pipeline)
  | conditional (choose : Context → Bool) (yes no : Pipeline)
  | guarded (inner : Pipeline) (strategy : Strategy)

namespace Pipeline

/-- The pipeline without steps. -/
def empty : Pipeline := .sequence []

instance : Inhabited Pipeline := ⟨empty⟩

/-- The name of a node in logs and records. -/
def label : Pipeline → String
  | .step s => s.name
  | .sequence nodes => "sequence[" ++ toString nodes.length ++ "]"
  | .conditional .. => "conditional"
  | .guarded inner _ => "guarded(" ++ inner.label ++ ")"

mutual

/-- Whether no execution of the node can run a step. -/
def isEmpty : Pipeline → Bool
  | .step _ => false
  | .sequence nodes => allEmpty nodes
  | .conditional _ yes no => yes.isEmpty && no.isEmpty
  | .guarded inner _ => inner.isEmpty

def allEmpty : List Pipeline → Bool
  | [] => true
  | node :: rest => node.isEmpty && allEmpty rest

end

/-- The place of a node below another: the numbers of the children on the way. -/
abbrev Path := List Nat

/-- Something that an execution does. -/
inductive Action where
  | ran (step : Step) (input : Context) (result : Except Fault Outcome)
  | offered (strategy : Strategy) (record : ExceptionRecord) (reply : Except StoreError Unit)

/-- An action and the node that it belongs to. -/
structure Event where
  path : Path
  action : Action

/-- The event as the parent of the node sees it. -/
def Event.below (child : Nat) (e : Event) : Event := { e with path := child :: e.path }

/-- What an execution returns, and what happened in it. -/
structure Run where
  result : Except Fault Outcome
  trace : List Event

namespace Run

/-- The run of a child as its parent sees it. -/
def below (child : Nat) (r : Run) : Run := { r with trace := r.trace.map (.below child) }

/-- The run with earlier events in front. -/
def after (earlier : List Event) (r : Run) : Run := { r with trace := earlier ++ r.trace }

end Run

/-- The record that a guard makes of a fault.  All of it comes from the context as it was when the
guard was entered. -/
def recordOf (strategy : Strategy) (source : String) (entry : Context) (fault : Fault) :
    ExceptionRecord :=
  .ofFault strategy.side ((strategy.correlationId? entry).getD unknownCorrelationId) source fault
    (.ofNotice entry.wantsNotice)

/-- The detail that an absorbed fault leaves behind. -/
def absorbedDetail (source : String) (fault : Fault) : Detail :=
  { Detail.ofFault fault with step := some source }

/-- The outcome of a guard that absorbed a fault: the entry context with the fault as its result, and
nothing follows. -/
def absorbed (source : String) (entry : Context) (fault : Fault) : Outcome :=
  let detail := absorbedDetail source fault
  ⟨entry.withResult detail, false, false, some detail⟩

/-- The run of a guard around the run of its inner node.  A fault is offered to the store once and
becomes an outcome whether or not the store takes it. -/
def guardRun (strategy : Strategy) (source : String) (entry : Context) (inner : Run) : Run :=
  match inner.result with
  | .ok _ => inner
  | .error fault =>
    let record := recordOf strategy source entry fault
    ⟨.ok (absorbed source entry fault),
      inner.trace ++ [⟨[], .offered strategy record (strategy.store record)⟩]⟩

mutual

/-- Runs a node on a context. -/
def execute : Pipeline → Context → Run
  | .step s, c =>
    let result := s.run c
    ⟨result, [⟨[], .ran s c result⟩]⟩
  | .sequence nodes, c => executeAll 0 nodes (.proceed c)
  | .conditional choose yes no, c =>
    if choose c then (yes.execute c).below 0 else (no.execute c).below 1
  | .guarded inner strategy, c =>
    guardRun strategy inner.label c ((inner.execute c).below 0)

/-- Runs the nodes of a sequence, the first of them being child number `child`, until a fault or an
outcome that does not proceed; otherwise the last outcome stands. -/
def executeAll (child : Nat) : List Pipeline → Outcome → Run
  | [], outcome => ⟨.ok outcome, []⟩
  | node :: rest, outcome =>
    let first := (node.execute outcome.context).below child
    match first.result with
    | .error _ => first
    | .ok next =>
      if next.canProceed then (executeAll (child + 1) rest next).after first.trace else first

end

mutual

/-- The steps of a pipeline from left to right, with their places. -/
def leaves : Pipeline → List (Path × Step)
  | .step s => [([], s)]
  | .sequence nodes => leavesOfAll 0 nodes
  | .conditional _ yes no =>
    yes.leaves.map (fun (p, s) => (0 :: p, s)) ++ no.leaves.map (fun (p, s) => (1 :: p, s))
  | .guarded inner _ => inner.leaves.map (fun (p, s) => (0 :: p, s))

def leavesOfAll (child : Nat) : List Pipeline → List (Path × Step)
  | [] => []
  | node :: rest =>
    node.leaves.map (fun (p, s) => (child :: p, s)) ++ leavesOfAll (child + 1) rest

end

/-- The contexts that the step at a place was run on. -/
def inputsAt (path : Path) (trace : List Event) : List Context :=
  trace.filterMap fun e =>
    match e.action with
    | .ran _ input _ => if e.path = path then some input else none
    | .offered .. => none

/-- The records that stores took. -/
def acceptedRecords (trace : List Event) : List ExceptionRecord :=
  trace.filterMap fun e =>
    match e.action with
    | .offered _ record (.ok ()) => some record
    | _ => none

end Pipeline

end Intake
