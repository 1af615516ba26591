/-
Module: Intake.Proofs.Scheduled.Polls
Purpose: What the tasks of a round do does not depend on the order in which they go on.
Main exports: Scheduled.Task.past, Scheduled.Task.Sound, Scheduled.Task.step_past, Scheduled.Polls.Tells,
  Scheduled.Polls.Tells.run, Scheduled.Polls.tasks_eq_of_movesAt

A task carries its own past: how far it is determines what it has done.  A move of one task adds to the
trace what it adds to the past of this task, so the part of the trace that belongs to a target can be
read off its task at any time, whatever the others do in between.
-/
import Intake.Scheduled.Polls

namespace Intake

namespace Scheduled

open Schedule PollReport

/-! ### One task

Each target that is due is polled by a task of its own, which hands over the items that it found and finishes
each.  What a task has done can be told from where it is. -/

namespace Task

variable {task next : Task} {move : TaskMove} {events : List TaskEvent}

/-- All that a task has done. -/
def past : Task → List TaskEvent
  | .waiting => []
  | .handing found handled _ _ => begun (.found found) ++ handed handled
  | .telling found handled item answer _ =>
    begun (.found found) ++ handed handled ++ [.handled item answer]
  | .ended report => report.events

/-- A task has all items in hand that its poll found, those handed over first. -/
def Sound : Task → Prop
  | .waiting => True
  | .handing found handled item rest => handled.map Prod.fst ++ item :: rest = found
  | .telling found handled item _ rest => handled.map Prod.fst ++ item :: rest = found
  | .ended report => report.IsComplete

/-- Each item that is handed over is finished at once, with the answer of its handler. -/
theorem handed_concat (handled : List (Item × Except Fault Unit)) (item : Item)
    (answer : Except Fault Unit) :
    handed (handled ++ [(item, answer)]) =
      handed handled ++ [.handled item answer, .finished item answer.isOk] := by
  rw [handed, List.flatMap_append]
  rfl

/-- A move adds to the past of a task what the task does then, and loses no item. -/
theorem step_past (h : task.step? move = some (next, events)) (sound : task.Sound) :
    next.past = task.past ++ events ∧ next.Sound := by
  rw [step?.eq_def] at h
  split at h
  · cases h
    exact ⟨rfl, rfl⟩
  · cases h
    exact ⟨rfl, rfl⟩
  · cases h
    exact ⟨rfl, rfl⟩
  · cases h
    exact ⟨rfl, sound⟩
  · next found handled item answer =>
      cases h
      refine ⟨?_, ?_⟩
      · simp only [past, PollReport.events, handed_concat]
        simp
      · show (handled ++ [(item, answer)]).map Prod.fst = found
        rw [List.map_append]
        exact sound
  · next found handled item answer next rest =>
      cases h
      refine ⟨?_, ?_⟩
      · simp only [past, handed_concat]
        simp
      · show (handled ++ [(item, answer)]).map Prod.fst ++ next :: rest = found
        rw [List.map_append, List.append_assoc]
        exact sound
  · cases h

/-- A task that has ended does nothing more. -/
theorem step_ended (report : PollReport) (move : TaskMove) : (ended report).step? move = none := by
  cases move <;> rfl

theorem run_cons (task : Task) (move : TaskMove) (rest : List TaskMove) :
    task.run? (move :: rest) = (task.step? move).bind fun (next, _) => next.run? rest := by
  rw [run?, List.foldlM_cons]
  cases task.step? move with
  | none => rfl
  | some step => rfl

end Task

/-! ### All tasks

The tasks of a round go on in any order, and the results are awaited in the order of the targets.  A move of
one task leaves the others where they are. -/

variable {δ : Type u}

namespace Polls

variable {due : List (Due δ)} {d : Due δ} {p q : Polls δ} {task next : Task} {place : Nat}
  {key : String} {events : List TaskEvent} {moves : List Move}

theorem run_cons (p : Polls δ) (move : Move) (rest : List Move) :
    p.run? (move :: rest) = (p.step? move).bind fun q => q.run? rest := by
  rw [run?, List.foldlM_cons]
  rfl

/-- What a task does is added to the part of the trace that belongs to its target. -/
theorem ownEvents_append (key : String) (tasks : List (Due δ × Task))
    (trace : List (String × TaskEvent)) (joined : List (String × Bool)) (own : String)
    (events : List TaskEvent) :
    ownEvents key ⟨tasks, trace ++ events.map (own, ·), joined⟩ =
      (trace.filter (·.1 == key)).map Prod.snd ++ if own = key then events else [] := by
  rw [ownEvents, List.filter_append, List.map_append, List.filter_map, List.map_map]
  congr 1
  by_cases same : own = key
  · rw [if_pos same, same]
    simp [Function.comp_def]
  · rw [if_neg same]
    simp [Function.comp_def, same]

/-- The task of a target stands at a place. -/
def At (p : Polls δ) (place : Nat) (d : Due δ) (task : Task) : Prop :=
  p.tasks[place]? = some (d, task)

/-- The trace and the results awaited are what the tasks tell. -/
structure Tells (due : List (Due δ)) (p : Polls δ) : Prop where
  targets : p.tasks.map Prod.fst = due
  sound : ∀ place d task, p.At place d task → task.Sound
  own : ∀ place d task, p.At place d task → p.ownEvents d.key = task.past
  known : ∀ x ∈ p.trace, x.1 ∈ due.map Due.key
  joined : ∀ place x, p.joined[place]? = some x →
    ∃ d report, p.At place d (.ended report) ∧ x = (d.key, report.productive)

/-- At first no task has done anything. -/
theorem tells_start (due : List (Due δ)) : Tells due (start due) where
  targets := by
    rw [start, List.map_map]
    exact List.map_id due
  sound := by
    intro place d task here
    obtain ⟨_, -, same⟩ := Option.map_eq_some_iff.mp ((List.getElem?_map ..).symm.trans here)
    cases same
    trivial
  own := by
    intro place d task here
    obtain ⟨_, -, same⟩ := Option.map_eq_some_iff.mp ((List.getElem?_map ..).symm.trans here)
    cases same
    rfl
  known := by
    intro x member
    cases member
  joined := by
    intro place x found
    cases found

namespace Tells

/-- A task stands where its target does. -/
theorem at_target (h : Tells due p) (here : p.At place d task) : due[place]? = some d := by
  rw [← h.targets, List.getElem?_map, here, Option.map_some]

/-- Different places have different targets. -/
theorem place_eq (h : Tells due p) (distinct : (due.map Due.key).Nodup) {other : Nat} {e : Due δ}
    {task' : Task} (here : p.At place d task) (there : p.At other e task') (same : d.key = e.key) :
    place = other := by
  have left : (due.map Due.key)[place]? = some d.key := by
    rw [List.getElem?_map, h.at_target here, Option.map_some]
  have right : (due.map Due.key)[other]? = some d.key := by
    rw [List.getElem?_map, h.at_target there, Option.map_some, same]
  obtain ⟨bound, -⟩ := List.getElem?_eq_some_iff.mp left
  exact (List.getElem?_inj bound distinct).mp (left.trans right.symm)

/-- A task that goes on does so for its own target only. -/
theorem go (h : Tells due p) (distinct : (due.map Due.key).Nodup) (here : p.At place d task)
    {move : TaskMove} (step : task.step? move = some (next, events)) :
    Tells due ⟨p.tasks.set place (d, next), p.trace ++ events.map (d.key, ·), p.joined⟩ := by
  obtain ⟨bound, -⟩ := List.getElem?_eq_some_iff.mp here
  obtain ⟨past, sound⟩ := Task.step_past step (h.sound place d task here)
  -- At each place there is the task that went on, or the one that was there before.
  have split (other : Nat) (e : Due δ) (task' : Task)
      (there : (p.tasks.set place (d, next))[other]? = some (e, task')) :
      (other = place ∧ e = d ∧ task' = next) ∨ (other ≠ place ∧ p.At other e task') := by
    rw [List.getElem?_set] at there
    split at there
    · next same =>
        cases there
        exact .inl ⟨same.symm, rfl, rfl⟩
    · next differs => exact .inr ⟨Ne.symm differs, there⟩
  constructor
  · rw [List.map_set, h.targets]
    apply List.ext_getElem?
    intro other
    rw [List.getElem?_set]
    split
    · next same =>
        rw [← same, h.at_target here]
        exact if_pos (by rwa [← h.targets, List.length_map])
    · rfl
  · intro other e task' there
    rcases split other e task' there with ⟨-, -, rfl⟩ | ⟨-, before⟩
    · exact sound
    · exact h.sound other e task' before
  · intro other e task' there
    rw [ownEvents_append, ← ownEvents]
    rcases split other e task' there with ⟨-, rfl, rfl⟩ | ⟨differs, before⟩
    · rw [if_pos rfl, h.own place e task here, past]
    · have apart : d.key ≠ e.key := fun same => differs (h.place_eq distinct here before same).symm
      rw [if_neg apart, List.append_nil, h.own other e task' before]
  · intro x member
    rcases List.mem_append.mp member with old | new
    · exact h.known x old
    · obtain ⟨event, -, rfl⟩ := List.mem_map.mp new
      exact List.mem_map_of_mem (List.mem_of_getElem? (h.at_target here))
  · intro other x found
    obtain ⟨e, report, there, same⟩ := h.joined other x found
    refine ⟨e, report, ?_, same⟩
    -- A task whose result was awaited has ended and does not go on.
    have differs : place ≠ other := by
      rintro rfl
      rw [At, here] at there
      cases there
      rw [Task.step_ended] at step
      cases step
    rw [At, List.getElem?_set_ne differs]
    exact there

/-- Awaiting a result changes no task. -/
theorem join (h : Tells due p) {report : PollReport} (here : p.At p.joined.length d (.ended report)) :
    Tells due { p with joined := p.joined ++ [(d.key, report.productive)] } := by
  refine ⟨h.targets, h.sound, h.own, h.known, ?_⟩
  intro place x found
  rcases Nat.lt_trichotomy place p.joined.length with old | new | none
  · rw [List.getElem?_append_left old] at found
    exact h.joined place x found
  · rw [new, List.getElem?_concat_length] at found
    cases found
    exact ⟨d, report, new ▸ here, rfl⟩
  · rw [List.getElem?_eq_none (by simp; omega)] at found
    cases found

/-- Every move keeps it. -/
theorem step (h : Tells due p) (distinct : (due.map Due.key).Nodup) {move : Move}
    (done : p.step? move = some q) : Tells due q := by
  cases move with
  | go place move =>
      simp only [step?] at done
      split at done
      · next d task here =>
          obtain ⟨⟨next, events⟩, step, rfl⟩ := Option.map_eq_some_iff.mp done
          exact h.go distinct here step
      · cases done
  | join =>
      simp only [step?] at done
      split at done
      · next d report here =>
          cases done
          exact h.join here
      · cases done

/-- Every schedule keeps it. -/
theorem run (h : Tells due p) (distinct : (due.map Due.key).Nodup) (done : p.run? moves = some q) :
    Tells due q := by
  induction moves generalizing p with
  | nil =>
      cases done
      exact h
  | cons move rest ih =>
      rw [run_cons] at done
      obtain ⟨between, first, later⟩ := Option.bind_eq_some_iff.mp done
      exact ih (h.step distinct first) later

/-! ### The end of a round

When all results were awaited, each task has ended.  So there is one report for each target that was due, and
none for any other. -/

/-- Once all results were awaited, every task has ended. -/
theorem ended (h : Tells due p) (done : p.isDone = true) (target : due[place]? = some d) :
    ∃ report, p.At place d (.ended report) ∧
      p.joined[place]? = some (d.key, report.productive) := by
  obtain ⟨bound, -⟩ := List.getElem?_eq_some_iff.mp target
  have all : p.joined.length = due.length := by
    rw [← h.targets, List.length_map]
    exact eq_of_beq done
  obtain ⟨x, awaited⟩ : ∃ x, p.joined[place]? = some x :=
    ⟨_, List.getElem?_eq_getElem (by omega)⟩
  obtain ⟨e, report, there, rfl⟩ := h.joined place x awaited
  have same : e = d := Option.some.inj ((h.at_target there).symm.trans target)
  subst same
  exact ⟨report, there, awaited⟩

/-- The results awaited are those of the targets in order. -/
theorem map_fst_joined (h : Tells due p) (done : p.isDone = true) :
    p.joined.map Prod.fst = due.map Due.key := by
  apply List.ext_getElem?
  intro place
  rw [List.getElem?_map, List.getElem?_map]
  cases target : due[place]? with
  | some d =>
      obtain ⟨report, -, awaited⟩ := h.ended done target
      rw [awaited, Option.map_some, Option.map_some]
  | none =>
      have all : p.joined.length = due.length := by
        rw [← h.targets, List.length_map]
        exact eq_of_beq done
      have beyond := List.getElem?_eq_none_iff.mp target
      rw [List.getElem?_eq_none (by omega), Option.map_none, Option.map_none]

/-- The report of a target is that of its task. -/
theorem report?_eq (h : Tells due p) (distinct : (due.map Due.key).Nodup) {report : PollReport}
    (here : p.At place d (.ended report)) : p.report? d.key = some report := by
  have first : p.tasks.find? (·.1.key == d.key) = some (d, .ended report) := by
    cases found : p.tasks.find? (·.1.key == d.key) with
    | none =>
        have nothing := List.find?_eq_none.mp found (d, .ended report) (List.mem_of_getElem? here)
        exact absurd (beq_self_eq_true d.key) nothing
    | some x =>
        obtain ⟨e, task'⟩ := x
        obtain ⟨other, there⟩ := List.mem_iff_getElem?.mp (List.mem_of_find?_eq_some found)
        have holds := List.find?_some found
        have named : e.key = d.key := eq_of_beq holds
        have same := h.place_eq distinct here there named.symm
        rw [← same] at there
        exact there.symm.trans here
  rw [report?, first, Option.bind_some]

/-- A target that was not due has no report. -/
theorem report?_eq_none (h : Tells due p) (absent : key ∉ due.map Due.key) :
    p.report? key = none := by
  have nothing : p.tasks.find? (·.1.key == key) = none := by
    apply List.find?_eq_none.mpr
    intro x member named
    apply absent
    rw [← h.targets, List.map_map, ← eq_of_beq named]
    exact List.mem_map_of_mem (f := Due.key ∘ Prod.fst) member
  rw [report?, nothing, Option.bind_none]

end Tells

/-! ### Any order

A task depends on its own moves only.  Two schedules that agree for each task on the moves of this task lead
to the same tasks. -/

/-- A task is where its own moves lead to. -/
theorem at_run (done : p.run? moves = some q) (here : p.At place d task) :
    ∃ next, task.run? (movesAt place moves) = some next ∧ q.At place d next := by
  induction moves generalizing p task with
  | nil =>
      cases done
      exact ⟨task, rfl, here⟩
  | cons move rest ih =>
      rw [run_cons] at done
      obtain ⟨between, first, later⟩ := Option.bind_eq_some_iff.mp done
      cases move with
      | join =>
          simp only [step?] at first
          split at first
          · cases first
            exact ih later here
          · cases first
      | go other move =>
          simp only [step?] at first
          split at first
          · next e task' there =>
              obtain ⟨⟨next, events⟩, step, rfl⟩ := Option.map_eq_some_iff.mp first
              by_cases same : other = place
              · subst same
                rw [At, there] at here
                cases here
                obtain ⟨bound, -⟩ := List.getElem?_eq_some_iff.mp there
                have now : At ⟨p.tasks.set other (d, next), p.trace ++ events.map (d.key, ·),
                    p.joined⟩ other d next := by
                  rw [At, List.getElem?_set_self bound]
                have own : movesAt other (.go other move :: rest) = move :: movesAt other rest := by
                  simp [movesAt]
                rw [own, Task.run_cons, step, Option.bind_some]
                exact ih later now
              · have now : At ⟨p.tasks.set other (e, next), p.trace ++ events.map (e.key, ·),
                    p.joined⟩ place d task := by
                  rw [At, List.getElem?_set_ne same]
                  exact here
                have own : movesAt place (.go other move :: rest) = movesAt place rest := by
                  simp [movesAt, same]
                rw [own]
                exact ih later now
          · cases first

/-- Schedules that differ only in the order of the tasks lead to the same tasks. -/
theorem tasks_eq_of_movesAt (distinct : (due.map Due.key).Nodup) {other : List Move}
    (one : (start due).run? moves = some p) (two : (start due).run? other = some q)
    (same : ∀ place, movesAt place moves = movesAt place other) : p.tasks = q.tasks := by
  have left := ((tells_start due).run distinct one).targets
  have right := ((tells_start due).run distinct two).targets
  apply List.ext_getElem?
  intro place
  cases target : due[place]? with
  | some d =>
      have here : (start due).At place d .waiting := by
        rw [At, start, List.getElem?_map, target, Option.map_some]
      obtain ⟨next, leads, reached⟩ := at_run one here
      obtain ⟨next', leads', reached'⟩ := at_run two here
      rw [same, leads'] at leads
      cases leads
      exact reached.trans reached'.symm
  | none =>
      have beyond := List.getElem?_eq_none_iff.mp target
      rw [List.getElem?_eq_none (by rwa [← left, List.length_map] at beyond),
        List.getElem?_eq_none (by rwa [← right, List.length_map] at beyond)]

end Polls

namespace PollReport

/-- A poll all of whose items were handed over to one handler. -/
theorem eq_pollOnce {r : PollReport} {result : PollEnd Item} {handle : ItemHandler}
    (complete : r.IsComplete) (follows : ∀ event ∈ r.events, event.Follows result handle) :
    r = pollOnce result handle := by
  obtain ⟨ended, handled⟩ := r
  have result_eq : ended = result := follows (.polled ended) (List.mem_cons_self ..)
  subst result_eq
  cases ended with
  | found items =>
      have answers : ∀ x ∈ handled, x = (x.1, handle x.1) := by
        intro x member
        have event : TaskEvent.handled x.1 x.2 ∈ events ⟨.found items, handled⟩ := by
          apply List.mem_append_right
          exact List.mem_flatMap.mpr ⟨x, member, List.mem_cons_self ..⟩
        have answer : x.2 = handle x.1 := follows _ event
        rw [← answer]
      have all : handled = items.map fun item => (item, handle item) := by
        have found : handled.map Prod.fst = items := complete
        rw [← found, List.map_map]
        exact (List.map_id handled).symm.trans (List.map_congr_left answers)
      rw [pollOnce, all]
  | failed cause =>
      have nothing : handled = [] := complete
      rw [pollOnce, nothing]
      rintro _ ⟨⟩
  | crashed => exact complete.elim

end PollReport

end Scheduled

end Intake
