/-
Module: Intake.Proofs.Batch.Dispatching
Purpose: What a batch does is the same in whatever order its tasks go on.
Main exports: Batch.Task.past, Batch.Dispatch.Effect, Batch.Dispatch.effect_step, Batch.Dispatch.Tells,
  Batch.Dispatch.InTurn, Batch.Dispatch.remaining_effect, Batch.Dispatch.exists_step,
  Batch.Dispatch.dispatch_in_any_order

The stage of a task determines what has been done about its item, so the trace of a batch can be read off
its tasks at any time.  Only the order of the batch's own doings is not in the tasks: it follows the number
of tasks that are settled, which never goes back.
-/
import Mathlib.Algebra.GroupWithZero.Nat
import Mathlib.Data.List.Induction
import Mathlib.Data.Nat.Basic
import Mathlib.Order.Basic
import Intake.Batch.Trace
import Intake.Proofs.Lists

namespace Intake

namespace Batch

variable {ι : Type u}

/-! ### One task

An item is handed to a task of its own.  How far a task has come is its stage, and from the stage follows all
that has been done about its item. -/

/-- A task has a fault to report exactly when it did not complete. -/
theorem TaskEnd.fault?_eq_none_iff (key : String) {result : TaskEnd} :
    result.fault? key = none ↔ result.isCompleted = true := by
  cases result with
  | completed => simp [fault?, isCompleted]
  | faulted => simp [fault?, isCompleted]
  | crashed => simp [fault?, isCompleted]

namespace Stage

/-- Where a batch that has settled a number of tasks can have one at this stage. -/
def StandsAt (settled place : Nat) : Stage → Prop
  | .settled _ => place < settled
  | .routing _ => place = settled
  | _ => settled ≤ place

/-- The moves that are left at most before a task is settled. -/
def remaining : Stage → Nat
  | .waiting => 4
  | .running => 3
  | .ended _ => 2
  | .routing _ => 1
  | .settled _ => 0

/-- Whether the report counts a task as completed, and whether it counts it as faulted. -/
def isPassed : Stage → Bool
  | .settled result => result.isCompleted
  | _ => false

def isFailed : Stage → Bool
  | .routing _ => true
  | .settled result => !result.isCompleted
  | _ => false

end Stage

namespace Task

/-- All that has been done about the item of a task. -/
def past (t : Task ι) : List (TaskEvent ι) :=
  match t.stage with
  | .waiting => []
  | .running => [.started t.item]
  | .ended result => [.started t.item, .ended t.item result]
  | .routing result =>
    [.started t.item, .ended t.item result] ++ ((result.fault? t.key).map (.routing t.key)).toList
  | .settled result => course t.key t.item result

/-- A task that has ended has a given result, and a fault if it is being routed. -/
def Sound (t : Task ι) (result : TaskEnd) : Prop :=
  match t.stage with
  | .ended own => own = result
  | .routing own => own = result ∧ result.isCompleted = false
  | .settled own => own = result
  | _ => True

end Task

/-- A task that ends has started before, and one with a fault has it routed after that. -/
theorem course_eq (key : String) (item : ι) (result : TaskEnd) :
    course key item result = [.started item, .ended item result] ++
      match result.fault? key with
      | none => []
      | some fault => [.routing key fault, .routed] := by
  cases result with
  | completed => rfl
  | faulted => rfl
  | crashed => rfl

/-- What is done about one item is added to what was done about it before. -/
theorem ownEvents_append (place other : Nat) (trace : List (Nat × TaskEvent ι))
    (events : List (TaskEvent ι)) :
    ownEvents other (trace ++ events.map (place, ·)) =
      ownEvents other trace ++ if place = other then events else [] := by
  rw [ownEvents, List.filter_append, List.map_append, List.filter_map, List.map_map]
  congr 1
  by_cases same : place = other
  · rw [if_pos same, same]
    simp [Function.comp_def]
  · rw [if_neg same]
    simp [Function.comp_def, same]

namespace Dispatch

variable {key : ι → String} {handle : Nat → ι → TaskEnd} {items : List ι} {d next : Dispatch ι}
  {trace events : List (Nat × TaskEvent ι)} {place : Nat} {t : Task ι} {stage : Stage}
  {moves : List Move}

/-! ### Moves

All that a move of a batch can do is said once, by the cases of `Effect`.  What a batch keeps is proved by
these cases. -/

/-- All that one move can do. -/
inductive Effect (key : ι → String) (handle : Nat → ι → TaskEnd) (d : Dispatch ι) :
    Dispatch ι → Nat → List (TaskEvent ι) → Prop where
  /-- The next item gets its task. -/
  | spawned {item : ι} {rest : List ι} {place : Nat} (next : d.unspawned = item :: rest) :
      Effect key handle d
        { d with unspawned := rest, tasks := d.tasks ++ [⟨key item, item, .waiting⟩] } place []
  /-- A task begins. -/
  | started {place : Nat} {t : Task ι} (here : d.tasks[place]? = some t) (stage : t.stage = .waiting) :
      Effect key handle d (d.put place t .running) place [.started t.item]
  /-- A task ends. -/
  | finished {place : Nat} {t : Task ι} (here : d.tasks[place]? = some t)
      (stage : t.stage = .running) :
      Effect key handle d (d.put place t (.ended (handle place t.item))) place
        [.ended t.item (handle place t.item)]
  /-- The next result is awaited, and there is no fault. -/
  | passed {t : Task ι} {result : TaskEnd} (here : d.tasks[d.settled]? = some t)
      (stage : t.stage = .ended result) (completed : result.fault? t.key = none) :
      Effect key handle d
        { d.put d.settled t (.settled result) with
          settled := d.settled + 1
          report := { d.report with completed := d.report.completed + 1 } } d.settled []
  /-- The next result is awaited, and the routing of its fault begins. -/
  | failed {t : Task ι} {result : TaskEnd} {fault : Fault} (here : d.tasks[d.settled]? = some t)
      (stage : t.stage = .ended result) (faulted : result.fault? t.key = some fault) :
      Effect key handle d
        { d.put d.settled t (.routing result) with
          report := { d.report with faulted := d.report.faulted + 1 } } d.settled
        [.routing t.key fault]
  /-- The routing of a fault ends. -/
  | routed {t : Task ι} {result : TaskEnd} (here : d.tasks[d.settled]? = some t)
      (stage : t.stage = .routing result) :
      Effect key handle d { d.put d.settled t (.settled result) with settled := d.settled + 1 }
        d.settled [.routed]

/-- Every move has one of these effects, and tells what it did about the item of one place. -/
theorem effect_step {move : Move} (step : d.step? key handle move = some (next, events)) :
    ∃ place own, events = own.map (place, ·) ∧ Effect key handle d next place own := by
  cases move with
  | spawn =>
      simp only [step?] at step
      split at step
      · cases step
      · next item rest unspawned =>
          cases step
          exact ⟨0, [], rfl, .spawned unspawned⟩
  | start place =>
      simp only [step?] at step
      split at step
      · next here =>
          cases step
          exact ⟨place, _, rfl, .started here rfl⟩
      · cases step
  | finish place =>
      simp only [step?] at step
      split at step
      · next here =>
          cases step
          exact ⟨place, _, rfl, .finished here rfl⟩
      · cases step
  | join =>
      simp only [step?] at step
      split at step
      · next key item result _ here =>
          simp only [join] at step
          split at step
          · next completed =>
              cases step
              exact ⟨d.settled, [], rfl, .passed here rfl completed⟩
          · next fault faulted =>
              cases step
              exact ⟨d.settled, _, rfl, .failed here rfl faulted⟩
      · cases step
  | settle =>
      simp only [step?] at step
      split at step
      · next here =>
          cases step
          exact ⟨d.settled, _, rfl, .routed here rfl⟩
      · cases step

/-- At each place there is the task that went on, or the one that was there before. -/
theorem at_put {other : Nat} {t' : Task ι}
    (there : (d.put place t stage).tasks[other]? = some t') :
    (other = place ∧ t' = { t with stage }) ∨ (other ≠ place ∧ d.tasks[other]? = some t') := by
  rw [put, List.getElem?_set] at there
  split at there
  · next same =>
      split at there
      · exact .inl ⟨same.symm, (Option.some.inj there).symm⟩
      · cases there
  · next differs => exact .inr ⟨Ne.symm differs, there⟩

/-! ### What the tasks tell

The trace of a batch is nothing but what its tasks have gone through, so that no item is handled twice and
none in another way than its task says. -/

/-- The tasks are those of the items, and the trace is what they tell. -/
structure Tells (key : ι → String) (handle : Nat → ι → TaskEnd) (items : List ι) (d : Dispatch ι)
    (trace : List (Nat × TaskEvent ι)) : Prop where
  items : d.tasks.map Task.item ++ d.unspawned = items
  keys : ∀ t ∈ d.tasks, t.key = key t.item
  sound : ∀ (place : Nat) (t : Task ι), d.tasks[place]? = some t → t.Sound (handle place t.item)
  own : ∀ (place : Nat) (t : Task ι), d.tasks[place]? = some t → ownEvents place trace = t.past
  known : ∀ x ∈ trace, x.1 < d.tasks.length

namespace Tells

/-- A new batch has no tasks and no trace. -/
theorem create (key : ι → String) (handle : Nat → ι → TaskEnd) (items : List ι) :
    Tells key handle items (create items) [] where
  items := rfl
  keys := by simp [Dispatch.create]
  sound := by simp [Dispatch.create]
  own := by simp [Dispatch.create]
  known := by simp

/-- The next item gets a task about which nothing is told yet. -/
theorem spawn {item : ι} {rest : List ι} (h : Tells key handle items d trace)
    (unspawned : d.unspawned = item :: rest) :
    Tells key handle items
      { d with unspawned := rest, tasks := d.tasks ++ [⟨key item, item, .waiting⟩] } trace := by
  have split (place : Nat) (t : Task ι)
      (there : (d.tasks ++ [⟨key item, item, .waiting⟩])[place]? = some t) :
      d.tasks[place]? = some t ∨ place = d.tasks.length ∧ t = ⟨key item, item, .waiting⟩ := by
    rw [List.getElem?_append] at there
    split at there
    · exact .inl there
    · next beyond =>
        obtain ⟨bound, rfl⟩ := List.getElem?_eq_some_iff.mp there
        rw [List.length_singleton] at bound
        exact .inr ⟨by omega, List.getElem_singleton ..⟩
  constructor
  · rw [← h.items, unspawned, List.map_append, List.append_assoc]
    rfl
  · intro t member
    rcases List.mem_append.mp member with old | new
    · exact h.keys t old
    · rw [List.mem_singleton.mp new]
  · intro place t there
    rcases split place t there with before | ⟨-, rfl⟩
    · exact h.sound place t before
    · trivial
  · intro place t there
    rcases split place t there with before | ⟨rfl, rfl⟩
    · exact h.own place t before
    · -- Nothing was done about an item without a task.
      have nothing : trace.filter (·.1 == d.tasks.length) = [] := by
        apply List.filter_eq_nil_iff.mpr
        intro x member same
        exact absurd (eq_of_beq same) (h.known x member).ne
      rw [ownEvents, nothing]
      rfl
  · intro x member
    exact (h.known x member).trans_le (by simp)

/-- A task that goes on does so for its own item only. -/
theorem put {own : List (TaskEvent ι)} (h : Tells key handle items d trace)
    (here : d.tasks[place]? = some t) (tasks : next.tasks = (d.put place t stage).tasks)
    (unspawned : next.unspawned = d.unspawned)
    (sound : Task.Sound { t with stage } (handle place t.item))
    (past : Task.past { t with stage } = t.past ++ own) :
    Tells key handle items next (trace ++ own.map (place, ·)) := by
  have length : next.tasks.length = d.tasks.length := by
    rw [tasks]
    exact List.length_set
  obtain ⟨bound, -⟩ := List.getElem?_eq_some_iff.mp here
  constructor
  · obtain ⟨before, after, whole, changed⟩ := Lists.exists_split here
    rw [← h.items, unspawned, tasks, Dispatch.put, changed, whole, List.map_append, List.map_append]
    rfl
  · intro t' member
    rw [tasks] at member
    rcases List.mem_or_eq_of_mem_set member with old | rfl
    · exact h.keys t' old
    · exact h.keys t (List.mem_of_getElem? here)
  · intro other t' there
    rw [tasks] at there
    rcases at_put there with ⟨rfl, rfl⟩ | ⟨-, before⟩
    · exact sound
    · exact h.sound other t' before
  · intro other t' there
    rw [tasks] at there
    rw [ownEvents_append]
    rcases at_put there with ⟨rfl, rfl⟩ | ⟨differs, before⟩
    · rw [if_pos rfl, h.own other t here, past]
    · rw [if_neg differs.symm, List.append_nil, h.own other t' before]
  · intro x member
    rw [length]
    rcases List.mem_append.mp member with old | new
    · exact h.known x old
    · obtain ⟨event, -, rfl⟩ := List.mem_map.mp new
      exact bound

/-- Every move keeps it. -/
theorem effect {own : List (TaskEvent ι)} (h : Tells key handle items d trace)
    (effect : Effect key handle d next place own) :
    Tells key handle items next (trace ++ own.map (place, ·)) := by
  cases effect with
  | spawned unspawned =>
      rw [List.map_nil, List.append_nil]
      exact h.spawn unspawned
  | started here stage =>
      refine h.put here rfl rfl trivial ?_
      simp only [Task.past, stage, List.nil_append]
  | finished here stage =>
      refine h.put here rfl rfl rfl ?_
      simp only [Task.past, stage, List.cons_append, List.nil_append]
  | @passed t result here stage completed =>
      have sound := h.sound _ t here
      simp only [Task.Sound, stage] at sound
      refine h.put here rfl rfl sound ?_
      simp only [Task.past, stage, course_eq, completed]
  | @failed t result fault here stage faulted =>
      have sound := h.sound _ t here
      simp only [Task.Sound, stage] at sound
      have incomplete : result.isCompleted = false := by
        rw [← Bool.not_eq_true, ← TaskEnd.fault?_eq_none_iff t.key, faulted]
        exact Option.some_ne_none fault
      refine h.put here rfl rfl ⟨sound, sound ▸ incomplete⟩ ?_
      simp only [Task.past, stage, faulted, Option.map_some, Option.toList_some]
  | @routed t result here stage =>
      have sound := h.sound _ t here
      simp only [Task.Sound, stage] at sound
      refine h.put here rfl rfl sound.1 ?_
      cases faulted : result.fault? t.key with
      | none =>
          rw [TaskEnd.fault?_eq_none_iff, sound.1, sound.2] at faulted
          cases faulted
      | some fault =>
          simp only [Task.past, stage, course_eq, faulted, Option.map_some, Option.toList_some,
            List.cons_append, List.nil_append]

end Tells

/-! ### One after the other

Tasks run in any order, but they are awaited in the order of their items.  So the settled ones are the first
ones of the batch, and the report counts them and the one whose fault is on its way. -/

/-- The report on tasks, as far as they were awaited. -/
def tally (tasks : List (Task ι)) : Report :=
  ⟨tasks.countP (·.stage.isPassed), tasks.countP (·.stage.isFailed)⟩

/-- The first tasks are settled, the fault of the next one may be on its way, and the report and the order
of what the batch has done itself agree with that. -/
structure InTurn (d : Dispatch ι) (trace : List (Nat × TaskEvent ι)) : Prop where
  stands : ∀ (place : Nat) (t : Task ι), d.tasks[place]? = some t → t.stage.StandsAt d.settled place
  complete : d.settled ≤ d.tasks.length
  report : d.report = tally d.tasks
  inOrder : ((trace.filter (·.2.isRouting)).map Prod.fst).Pairwise (· ≤ ·)
  reached : ∀ x ∈ trace, x.2.isRouting = true → x.1 ≤ d.settled

/-- A task that goes on adds to the report what its new stage adds. -/
theorem tally_put (here : d.tasks[place]? = some t) (stage : Stage) :
    (tally (d.put place t stage).tasks).completed + t.stage.isPassed.toNat =
        (tally d.tasks).completed + stage.isPassed.toNat ∧
      (tally (d.put place t stage).tasks).faulted + t.stage.isFailed.toNat =
        (tally d.tasks).faulted + stage.isFailed.toNat := by
  obtain ⟨before, after, whole, changed⟩ := Lists.exists_split here
  have counted (b : Bool) : b.toNat = if b then 1 else 0 := by
    cases b with
    | false => rfl
    | true => rfl
  rw [put, tally, tally, changed, whole]
  simp only [List.countP_append, List.countP_cons, counted]
  omega

namespace InTurn

/-- No task of a new batch was awaited. -/
theorem create (items : List ι) : InTurn (create items) [] where
  stands := by simp [Dispatch.create]
  complete := le_rfl
  report := rfl
  inOrder := List.Pairwise.nil
  reached := by simp

/-- A task that was just created was not awaited yet. -/
theorem spawn {item : ι} {rest : List ι} {key : String} (h : InTurn d trace) :
    InTurn { d with unspawned := rest, tasks := d.tasks ++ [⟨key, item, .waiting⟩] } trace := by
  constructor
  · intro place t there
    rw [List.getElem?_append] at there
    split at there
    · exact h.stands place t there
    · next beyond =>
        obtain ⟨bound, rfl⟩ := List.getElem?_eq_some_iff.mp there
        rw [List.getElem_singleton]
        exact h.complete.trans (Nat.not_lt.mp beyond)
  · exact h.complete.trans (by simp)
  · rw [h.report, tally, tally, List.countP_append, List.countP_append]
    rfl
  · exact h.inOrder
  · exact h.reached

/-- A task goes on, and the count of settled tasks with it if it was its turn. -/
theorem put {own : List (TaskEvent ι)} (h : InTurn d trace) (here : d.tasks[place]? = some t)
    (tasks : next.tasks = (d.put place t stage).tasks)
    (settled : next.settled = d.settled ∨ next.settled = d.settled + 1 ∧ place = d.settled)
    (stands : stage.StandsAt next.settled place)
    (completed : next.report.completed + t.stage.isPassed.toNat =
      d.report.completed + stage.isPassed.toNat)
    (faulted : next.report.faulted + t.stage.isFailed.toNat =
      d.report.faulted + stage.isFailed.toNat)
    (routing : ∀ event ∈ own, event.isRouting = true → place = d.settled) :
    InTurn next (trace ++ own.map (place, ·)) := by
  obtain ⟨bound, -⟩ := List.getElem?_eq_some_iff.mp here
  have length : next.tasks.length = d.tasks.length := by
    rw [tasks]
    exact List.length_set
  have forth : d.settled ≤ next.settled := by omega
  have complete := h.complete
  refine ⟨?_, by omega, ?_, ?_, ?_⟩
  · intro other t' there
    rw [tasks] at there
    rcases at_put there with ⟨rfl, rfl⟩ | ⟨differs, before⟩
    · exact stands
    · have stood := h.stands other t' before
      cases old : t'.stage with
      | settled result =>
          simp only [old, Stage.StandsAt] at stood ⊢
          omega
      | routing result =>
          simp only [old, Stage.StandsAt] at stood ⊢
          omega
      | _ =>
          simp only [old, Stage.StandsAt] at stood ⊢
          omega
  · obtain ⟨passed, failed⟩ := tally_put here stage
    rw [h.report] at completed faulted
    rw [tasks]
    exact Report.ext (by omega) (by omega)
  · -- What the batch does now comes behind all that it has done before.
    rw [List.filter_append, List.map_append, List.pairwise_append]
    have new (x : Nat × TaskEvent ι) (member : x ∈ (own.map (place, ·)).filter (·.2.isRouting)) :
        x.1 = place ∧ place = d.settled := by
      obtain ⟨inside, own⟩ := List.mem_filter.mp member
      obtain ⟨event, there, rfl⟩ := List.mem_map.mp inside
      exact ⟨rfl, routing event there own⟩
    refine ⟨h.inOrder, ?_, ?_⟩
    · apply List.pairwise_of_forall_mem_list
      intro a ha b hb
      obtain ⟨x, inside, rfl⟩ := List.mem_map.mp ha
      obtain ⟨y, also, rfl⟩ := List.mem_map.mp hb
      rw [(new x inside).1, (new y also).1]
    · intro a ha b hb
      obtain ⟨x, inside, rfl⟩ := List.mem_map.mp ha
      obtain ⟨y, also, rfl⟩ := List.mem_map.mp hb
      obtain ⟨old, own⟩ := List.mem_filter.mp inside
      obtain ⟨same, turn⟩ := new y also
      rw [same, turn]
      exact h.reached x old own
  · intro x member own
    rcases List.mem_append.mp member with old | new
    · exact (h.reached x old own).trans forth
    · obtain ⟨event, there, rfl⟩ := List.mem_map.mp new
      rw [routing event there own]
      exact forth

/-- Every move keeps it. -/
theorem effect {own : List (TaskEvent ι)} (h : InTurn d trace) (tells : Tells key handle items d trace)
    (effect : Effect key handle d next place own) : InTurn next (trace ++ own.map (place, ·)) := by
  cases effect with
  | spawned unspawned =>
      rw [List.map_nil, List.append_nil]
      exact h.spawn
  | @started place t here stage =>
      have stood := h.stands place t here
      rw [stage] at stood
      refine h.put here rfl (.inl rfl) stood ?_ ?_ (by simp [TaskEvent.isRouting])
      · rw [stage]
        rfl
      · rw [stage]
        rfl
  | @finished place t here stage =>
      have stood := h.stands place t here
      rw [stage] at stood
      refine h.put here rfl (.inl rfl) stood ?_ ?_ (by simp [TaskEvent.isRouting])
      · rw [stage]
        rfl
      · rw [stage]
        rfl
  | @passed t result here stage none =>
      have ok := (TaskEnd.fault?_eq_none_iff t.key).mp none
      refine h.put here rfl (.inr ⟨rfl, rfl⟩) (Nat.lt_succ_self _) ?_ ?_ (by simp)
      · simp [stage, Stage.isPassed, ok]
      · simp [stage, Stage.isFailed, ok]
  | @failed t result fault here stage some =>
      refine h.put here rfl (.inl rfl) rfl ?_ ?_ (by simp)
      · simp [stage, Stage.isPassed]
      · simp [stage, Stage.isFailed]
  | @routed t result here stage =>
      have sound := tells.sound _ t here
      simp only [Task.Sound, stage] at sound
      have incomplete : result.isCompleted = false := by rw [sound.1, sound.2]
      refine h.put here rfl (.inr ⟨rfl, rfl⟩) (Nat.lt_succ_self _) ?_ ?_ (by simp)
      · simp [stage, Stage.isPassed, incomplete]
      · simp [stage, Stage.isFailed, incomplete]

end InTurn

/-! ### Every batch ends

Each move takes a task further or creates one, and the stages of a task are few.  As long as a batch is not
done there is a move that it can make, so every schedule comes to an end. -/

/-- The moves that are left at most before a batch is done. -/
def remaining (d : Dispatch ι) : Nat :=
  5 * d.unspawned.length + (d.tasks.map (·.stage.remaining)).sum

/-- Every move leaves fewer of them. -/
theorem remaining_effect {own : List (TaskEvent ι)} (effect : Effect key handle d next place own) :
    next.remaining < d.remaining := by
  have goes {place : Nat} {t : Task ι} {stage : Stage} (here : d.tasks[place]? = some t)
      (less : stage.remaining < t.stage.remaining) : (d.put place t stage).remaining < d.remaining := by
    obtain ⟨before, after, whole, changed⟩ := Lists.exists_split here
    rw [remaining, remaining, put, changed, whole]
    simp only [List.map_append, List.map_cons, List.sum_append, List.sum_cons]
    omega
  cases effect with
  | spawned unspawned =>
      simp only [remaining, unspawned, List.map_append, List.map_singleton, List.sum_append,
        List.sum_singleton, List.length_cons, Stage.remaining]
      omega
  | started here stage => exact goes here (by simp [stage, Stage.remaining])
  | finished here stage => exact goes here (by simp [stage, Stage.remaining])
  | passed here stage => exact goes here (by simp [stage, Stage.remaining])
  | failed here stage => exact goes here (by simp [stage, Stage.remaining])
  | routed here stage => exact goes here (by simp [stage, Stage.remaining])

/-- As long as a batch is not done, there is something that it can do. -/
theorem exists_step (key : ι → String) (handle : Nat → ι → TaskEnd) (h : InTurn d trace)
    (busy : d.isDone = false) :
    ∃ move next events, d.step? key handle move = some (next, events) := by
  cases unspawned : d.unspawned with
  | cons item rest => exact ⟨.spawn, _, _, by simp only [step?, unspawned]; rfl⟩
  | nil =>
      have more : d.settled < d.tasks.length := by
        have complete := h.complete
        have open_ : d.settled ≠ d.tasks.length := by simpa [isDone, unspawned] using busy
        omega
      obtain ⟨t, here⟩ : ∃ t, d.tasks[d.settled]? = some t := ⟨_, List.getElem?_eq_getElem more⟩
      have stood := h.stands d.settled t here
      obtain ⟨key, item, stage⟩ := t
      cases stage with
      | waiting => exact ⟨.start d.settled, _, _, by simp only [step?, here]; rfl⟩
      | running => exact ⟨.finish d.settled, _, _, by simp only [step?, here]; rfl⟩
      | ended result => exact ⟨.join, _, _, by simp only [step?, unspawned, here]; rfl⟩
      | routing result => exact ⟨.settle, _, _, by simp only [step?, here]; rfl⟩
      | settled result => exact absurd stood (Nat.lt_irrefl _)

/-! ### Schedules

A schedule is any sequence of moves that are possible one after another.  What a move keeps is carried over to
it by induction on its last move. -/

/-- The last move of a schedule is made after all others. -/
theorem run_concat (moves : List Move) (move : Move) :
    run? key handle items (moves ++ [move]) =
      (run? key handle items moves).bind fun s => advance? key handle s move := by
  rw [run?, List.foldlM_append]
  congr 1
  funext s
  exact bind_pure _

/-- Every schedule keeps what every move keeps, and is no longer than the moves that it uses up. -/
theorem kept_run (run : run? key handle items moves = some (d, trace)) :
    Tells key handle items d trace ∧ InTurn d trace ∧
      moves.length + d.remaining ≤ 5 * items.length := by
  induction moves using List.reverseRecOn generalizing d trace with
  | nil =>
      cases run
      exact ⟨.create key handle items, .create items, by simp [remaining, create]⟩
  | append_singleton moves move ih =>
      rw [run_concat] at run
      obtain ⟨⟨before, past⟩, first, later⟩ := Option.bind_eq_some_iff.mp run
      obtain ⟨⟨next, events⟩, step, same⟩ := Option.map_eq_some_iff.mp later
      obtain ⟨rfl, rfl⟩ := Prod.mk.inj same
      obtain ⟨tells, inTurn, bound⟩ := ih first
      obtain ⟨place, own, rfl, effect⟩ := effect_step step
      have less : next.remaining < before.remaining := remaining_effect effect
      refine ⟨tells.effect effect, inTurn.effect tells effect, ?_⟩
      rw [List.length_append, List.length_singleton]
      omega

/-- Every schedule can be carried on until the batch is done. -/
theorem exists_done (run : run? key handle items moves = some (d, trace)) :
    ∃ more d' trace', run? key handle items (moves ++ more) = some (d', trace') ∧
      d'.isDone = true := by
  induction left : d.remaining using Nat.strong_induction_on generalizing moves d trace with
  | h left' ih =>
      subst left
      cases busy : d.isDone with
      | true => exact ⟨[], d, trace, by rw [List.append_nil]; exact run, busy⟩
      | false =>
          obtain ⟨-, inTurn, -⟩ := kept_run run
          obtain ⟨move, next, events, step⟩ := exists_step key handle inTurn busy
          have carried : run? key handle items (moves ++ [move]) = some (next, trace ++ events) := by
            rw [run_concat, run, Option.bind_some, advance?, step, Option.map_some]
          obtain ⟨place, own, -, effect⟩ := effect_step step
          obtain ⟨more, d', trace', rest, done⟩ := ih _ (remaining_effect effect) carried rfl
          refine ⟨move :: more, d', trace', ?_, done⟩
          rw [← List.singleton_append, ← List.append_assoc]
          exact rest

/-! ### The end of a batch

When all tasks were awaited, the settled ones are the whole batch.  Then the report, the faults and what was
done about each item depend on the items alone, and no longer on the order of the moves. -/

/-- Once a batch is done, all its tasks are settled. -/
theorem tasks_of_done (tells : Tells key handle items d trace) (inTurn : InTurn d trace)
    (done : d.isDone = true) :
    d.tasks = items.mapIdx fun place item => ⟨key item, item, .settled (handle place item)⟩ := by
  obtain ⟨spawned, all⟩ : d.unspawned = [] ∧ d.settled = d.tasks.length := by
    simpa [isDone] using done
  have length : d.tasks.length = items.length := by
    have whole := congrArg List.length tells.items
    rw [List.length_append, List.length_map, spawned] at whole
    exact whole
  apply List.ext_getElem?
  intro place
  rw [List.getElem?_mapIdx]
  cases here : d.tasks[place]? with
  | none =>
      rw [List.getElem?_eq_none (length ▸ List.getElem?_eq_none_iff.mp here), Option.map_none]
  | some t =>
      obtain ⟨bound, -⟩ := List.getElem?_eq_some_iff.mp here
      have target : items[place]? = some t.item := by
        rw [← tells.items, spawned, List.append_nil, List.getElem?_map, here, Option.map_some]
      have stood := inTurn.stands place t here
      have sound := tells.sound place t here
      have own := tells.keys t (List.mem_of_getElem? here)
      obtain ⟨name, item, stage⟩ := t
      cases stage with
      | settled result =>
          obtain rfl : name = key item := own
          obtain rfl : result = handle place item := sound
          rw [target, Option.map_some]
      | routing result =>
          have stood : place = d.settled := stood
          omega
      | _ =>
          have stood : d.settled ≤ place := stood
          omega

/-- Once a batch is done, all has been done about its items. -/
theorem handled_of_done (tells : Tells key handle items d trace) (inTurn : InTurn d trace)
    (done : d.isDone = true) : Handled key handle items trace := by
  have tasks := tasks_of_done tells inTurn done
  refine ⟨?_, ?_, inTurn.inOrder⟩
  · intro place item target
    have here : d.tasks[place]? = some ⟨key item, item, .settled (handle place item)⟩ := by
      rw [tasks, List.getElem?_mapIdx, target, Option.map_some]
    exact tells.own place _ here
  · intro x member
    have bound := tells.known x member
    rwa [tasks, List.length_mapIdx] at bound

/-- The report of a batch that is done counts each item by the end of its task. -/
theorem report_of_done (tells : Tells key handle items d trace) (inTurn : InTurn d trace)
    (done : d.isDone = true) :
    d.report = ⟨(items.mapIdx handle).countP (·.isCompleted),
      (items.mapIdx handle).countP (!·.isCompleted)⟩ := by
  have stages : d.tasks.map Task.stage = (items.mapIdx handle).map Stage.settled := by
    rw [tasks_of_done tells inTurn done]
    exact List.ext_getElem? fun place => by simp [Function.comp_def]
  have count (p : Stage → Bool) :
      d.tasks.countP (fun t => p t.stage) = (items.mapIdx handle).countP (fun r => p (.settled r)) := by
    have both := congrArg (List.countP p) stages
    rwa [List.countP_map, List.countP_map] at both
  rw [inTurn.report, tally, count, count]
  rfl

/-- Whatever the order in which the tasks of a batch are created, begin, end and are awaited, each item is
handled once by its own task; once the batch is done all tasks have ended, the report counts the tasks that
completed and the others, and exactly the faults of the others have been routed, each once, with the key of
its item, and in the order of the items.  A batch is done after a limited number of moves, and until then
there is always a move. -/
theorem dispatch_in_any_order (key : ι → String) (handle : Nat → ι → TaskEnd) (items : List ι) :
    (∀ moves d trace, run? key handle items moves = some (d, trace) →
      moves.length ≤ 5 * items.length ∧
      (d.isDone = false → ∃ move next, d.step? key handle move = some next) ∧
      (d.isDone = true →
        d.tasks = items.mapIdx (fun place item => ⟨key item, item, .settled (handle place item)⟩) ∧
        d.report.completed = (items.mapIdx handle).countP (·.isCompleted) ∧
        d.report.faulted = (items.mapIdx handle).countP (!·.isCompleted) ∧
        d.report.completed + d.report.faulted = items.length ∧
        Handled key handle items trace)) ∧
    ∃ moves d trace, run? key handle items moves = some (d, trace) ∧ d.isDone = true := by
  refine ⟨?_, ?_⟩
  · intro moves d trace run
    obtain ⟨tells, inTurn, bound⟩ := kept_run run
    refine ⟨by omega, ?_, ?_⟩
    · intro busy
      obtain ⟨move, next, events, step⟩ := exists_step key handle inTurn busy
      exact ⟨move, (next, events), step⟩
    · intro done
      have report := report_of_done tells inTurn done
      have all : (items.mapIdx handle).length =
          (items.mapIdx handle).countP (·.isCompleted) +
            (items.mapIdx handle).countP (!·.isCompleted) := by
        rw [List.length_eq_countP_add_countP (·.isCompleted)]
        simp
      rw [List.length_mapIdx] at all
      refine ⟨tasks_of_done tells inTurn done, congrArg Report.completed report,
        congrArg Report.faulted report, ?_, handled_of_done tells inTurn done⟩
      rw [report]
      exact all.symm
  · have begun : run? key handle items [] = some (create items, []) := rfl
    obtain ⟨more, d, trace, run, done⟩ := exists_done begun
    exact ⟨more, d, trace, run, done⟩

end Dispatch

end Batch

end Intake
