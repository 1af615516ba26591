/-
Module: Intake.Proofs.Scheduled.Round
Purpose: What one round of a scheduled receiver does, whatever the order of its tasks.
Main exports: Scheduled.entry?_round, Scheduled.waits_round, Scheduled.round_eq,
  Scheduled.Polls.exists_schedule, Scheduled.round_in_any_order

A target that is drained and not scheduled again would never be polled any more.  So the statement is about
the whole way of a target through a round: out of its bucket, through its poll, and back into a bucket.
-/
import Intake.Proofs.Schedule.Draining
import Intake.Proofs.Scheduled.Polls
import Intake.Proofs.Scheduled.Rearming

namespace Intake

namespace Scheduled

open Schedule Polls PollReport

variable {δ : Type u} {s : Scheduler δ} {wake settle : Instant} {key : String} {p q : Polls δ}
  {moves : List Move}

/-! ### Targets that are due

A round begins with a drain.  The targets that it hands out are those whose second has begun, each once. -/

/-- Each target that is drained is handed out as it stands. -/
theorem exists_ofEntry {d : Due δ} (member : d ∈ (s.drain wake).1) :
    ∃ e, s.entry? d.key = some e ∧ d = Due.ofEntry d.key e := by
  have listed : d ∈ (Scheduler.takeAllDue s.entries (s.buckets.dueBy wake.seconds)).1 := member
  rw [Scheduler.fst_takeAllDue] at listed
  obtain ⟨k, -, same⟩ := List.mem_filterMap.mp listed
  obtain ⟨e, found, rfl⟩ := Option.map_eq_some_iff.mp same
  exact ⟨e, found, rfl⟩

/-- No target is polled twice in a round. -/
theorem nodup_due (h : s.Consistent) (wake : Instant) :
    ((s.drain wake).1.map Due.key).Nodup := by
  rw [Scheduler.map_key_drain h]
  exact Scheduler.nodup_dueBy h wake.seconds

/-- A target is polled exactly if it waits for a second that has begun. -/
theorem mem_due_iff (h : s.Consistent) :
    key ∈ (s.drain wake).1.map Due.key ↔ ∃ second, second ≤ wake.seconds ∧ s.Waits key second := by
  rw [Scheduler.map_key_drain h]
  exact Scheduler.mem_dueBy h wake.seconds

/-! ### What the polls of a round did

When the tasks of a round have ended, the trace and the results are those of the targets, and do not tell in
which order the tasks went on. -/

/-- A poll that ended is counted once, and as what it is. -/
theorem events_of_complete {r : PollReport} (complete : r.IsComplete) :
    ∃ event, r.result.event? = some event ∧
      r.events = .polled r.result :: .counted event :: handed r.handled := by
  obtain ⟨result, handled⟩ := r
  cases result with
  | found items =>
      cases items with
      | nil => exact ⟨.pollEmpty, rfl, rfl⟩
      | cons item rest => exact ⟨.pollProductive, rfl, rfl⟩
  | failed cause => exact ⟨.pollFailed, rfl, rfl⟩
  | crashed => exact complete.elim

variable {due : List (Due δ)}

/-- Every target has a report of all that was done for it. -/
theorem exists_report (h : Tells due p) (distinct : (due.map Due.key).Nodup) (done : p.isDone = true)
    {d : Due δ} (member : d ∈ due) :
    ∃ report, p.report? d.key = some report ∧ report.IsComplete ∧
      p.ownEvents d.key = report.events ∧ (d.key, report.productive) ∈ p.joined := by
  obtain ⟨place, target⟩ := List.mem_iff_getElem?.mp member
  obtain ⟨report, here, awaited⟩ := h.ended done target
  exact ⟨report, h.report?_eq distinct here, h.sound place d _ here, h.own place d _ here,
    List.mem_of_getElem? awaited⟩

/-- Nothing is done for a target that is not due. -/
theorem ownEvents_eq_nil (h : Tells due p) (absent : key ∉ due.map Due.key) :
    p.ownEvents key = [] := by
  have nothing : p.trace.filter (·.1 == key) = [] := by
    apply List.filter_eq_nil_iff.mpr
    intro x member named
    exact absent (eq_of_beq named ▸ h.known x member)
  rw [ownEvents, nothing, List.map_nil]

/-- The results awaited, from what the polls came to. -/
theorem joined_eq (h : Tells due p) (distinct : (due.map Due.key).Nodup) (done : p.isDone = true)
    {productive : Due δ → Bool} (agree : ∀ d ∈ due, ∀ report, p.report? d.key = some report →
      report.productive = productive d) :
    p.joined = due.map fun d => (d.key, productive d) := by
  apply List.ext_getElem?
  intro place
  rw [List.getElem?_map]
  cases target : due[place]? with
  | some d =>
      obtain ⟨report, here, awaited⟩ := h.ended done target
      have outcome := agree d (List.mem_of_getElem? target) report (h.report?_eq distinct here)
      rw [awaited, outcome, Option.map_some]
  | none =>
      have length := congrArg List.length (h.map_fst_joined done)
      rw [List.length_map, List.length_map] at length
      have beyond := List.getElem?_eq_none_iff.mp target
      rw [List.getElem?_eq_none (by omega), Option.map_none]

/-- In whatever order the tasks go on, the same is done for each target, with the same results. -/
theorem same_of_movesAt (distinct : (due.map Due.key).Nodup) {other : List Move}
    (one : (start due).run? moves = some p) (two : (start due).run? other = some q)
    (doneOne : p.isDone = true) (doneTwo : q.isDone = true)
    (same : ∀ place, movesAt place other = movesAt place moves) :
    q.joined = p.joined ∧ ∀ key, q.ownEvents key = p.ownEvents key := by
  have left := (tells_start due).run distinct one
  have right := (tells_start due).run distinct two
  have tasks : q.tasks = p.tasks := tasks_eq_of_movesAt distinct two one same
  refine ⟨?_, ?_⟩
  · have outcome (d : Due δ) (_ : d ∈ due) (report : PollReport)
        (reported : p.report? d.key = some report) :
        report.productive = (p.report? d.key).any productive := by
      rw [reported, Option.any_some]
    have outcome' (d : Due δ) (member : d ∈ due) (report : PollReport)
        (reported : q.report? d.key = some report) :
        report.productive = (p.report? d.key).any productive := by
      rw [report?, tasks] at reported
      exact outcome d member report reported
    rw [joined_eq left distinct doneOne outcome, joined_eq right distinct doneTwo outcome']
  · intro key
    by_cases known : key ∈ due.map Due.key
    · obtain ⟨d, member, rfl⟩ := List.mem_map.mp known
      obtain ⟨place, target⟩ := List.mem_iff_getElem?.mp member
      obtain ⟨report, here, -⟩ := left.ended doneOne target
      have there : q.At place d (.ended report) := by
        rw [At, tasks]
        exact here
      rw [left.own place d _ here, right.own place d _ there]
    · rw [ownEvents_eq_nil left known, ownEvents_eq_nil right known]

/-! ### The scheduler after a round

Each target of the round is settled by what its poll came to and put down for its next second.  All other
entries and buckets stay as they are. -/

/-- A target that was due is settled and scheduled again, by what its poll came to; all others stay as
they are. -/
theorem entry?_round (h : s.Consistent) (tells : Tells (s.drain wake).1 p) (done : p.isDone = true)
    (key : String) :
    Scheduler.entry? (settleAll settle (s.drain wake).2 p.joined) key =
      (s.entry? key).map fun e =>
        match p.report? key with
        | some report => rearmed settle report.productive e
        | none => e := by
  have distinct := nodup_due h wake
  have keys := tells.map_fst_joined done
  have drained (k : String) : Scheduler.entry? (s.drain wake).2 k =
      if k ∈ (s.drain wake).1.map Due.key then (s.entry? k).map Scheduler.markDue
      else s.entry? k := by
    rw [Scheduler.entry?_drain, Scheduler.map_key_drain h]
  have entered (k : String) (member : k ∈ (s.drain wake).1.map Due.key) :
      ∃ e, s.entry? k = some e := by
    obtain ⟨second, -, waits⟩ := (mem_due_iff h).mp member
    obtain ⟨e, found, -⟩ := (s.waits_iff k second).mp waits
    exact ⟨e, found⟩
  obtain ⟨settled, others⟩ := entry?_settleAll (s := (s.drain wake).2) settle (keys ▸ distinct)
    fun x member => by
      have due : x.1 ∈ (s.drain wake).1.map Due.key := keys ▸ List.mem_map_of_mem member
      obtain ⟨e, found⟩ := entered x.1 due
      exact ⟨Scheduler.markDue e, by rw [drained, if_pos due, found, Option.map_some], rfl⟩
  by_cases due : key ∈ (s.drain wake).1.map Due.key
  · obtain ⟨d, member, rfl⟩ := List.mem_map.mp due
    obtain ⟨report, reported, -, -, awaited⟩ := exists_report tells distinct done member
    obtain ⟨e, found⟩ := entered d.key due
    rw [found, Option.map_some, reported]
    rw [settled _ awaited (Scheduler.markDue e) (by rw [drained, if_pos due, found, Option.map_some]),
      rearmed_markDue]
  · rw [others key (keys ▸ due), drained, if_neg due, tells.report?_eq_none due]
    exact (Option.map_id' ..).symm

/-- Every target that waited for a second waits for one again, in the bucket of that second. -/
theorem waits_round (h : s.Consistent) (tells : Tells (s.drain wake).1 p) (done : p.isDone = true)
    (scheduled : ∀ key e, s.entry? key = some e → ∃ second, e.phase = .scheduled second) :
    ∀ key e, Scheduler.entry? (settleAll settle (s.drain wake).2 p.joined) key = some e →
      ∃ second, e.phase = .scheduled second ∧
        key ∈ Buckets.keysAt second (settleAll settle (s.drain wake).2 p.joined).buckets := by
  intro key e found
  have consistent : (settleAll settle (s.drain wake).2 p.joined).Consistent := by
    rw [settleAll_eq_after]
    exact (h.drain wake).after _
  have waits : ∃ second, e.phase = .scheduled second := by
    rw [entry?_round h tells done] at found
    obtain ⟨old, there, rfl⟩ := Option.map_eq_some_iff.mp found
    split
    · exact ⟨_, rfl⟩
    · exact scheduled key old there
  obtain ⟨second, phase⟩ := waits
  refine ⟨second, phase, ?_⟩
  rw [consistent.listed.placed, Scheduler.waits_iff]
  exact ⟨e, found, phase⟩

/-- Tasks that follow given polls and one handler come to the round that these determine. -/
theorem round_eq (h : s.Consistent) (tells : Tells (s.drain wake).1 p) (done : p.isDone = true)
    {poll : Due δ → PollEnd Item} {handle : ItemHandler}
    (follows : ∀ d ∈ (s.drain wake).1, ∀ event ∈ p.ownEvents d.key, event.Follows (poll d) handle) :
    round s wake settle poll handle =
      ⟨(s.drain wake).1.map fun d => (d, pollOnce (poll d) handle),
        settleAll settle (s.drain wake).2 p.joined⟩ := by
  have distinct := nodup_due h wake
  have outcome (d : Due δ) (member : d ∈ (s.drain wake).1) (report : PollReport)
      (reported : p.report? d.key = some report) :
      report.productive = (pollOnce (poll d) handle).productive := by
    obtain ⟨other, reported', complete, events, -⟩ := exists_report tells distinct done member
    rw [reported] at reported'
    cases reported'
    rw [eq_pollOnce complete (events ▸ follows d member)]
  have results : ((s.drain wake).1.map fun d => (d, pollOnce (poll d) handle)).map
      (fun x => (x.1.key, x.2.productive)) =
        (s.drain wake).1.map fun d => (d.key, (pollOnce (poll d) handle).productive) :=
    List.map_map ..
  rw [joined_eq tells distinct done outcome, ← results]
  rfl

/-! ### A schedule for every round

That no round can be stuck is shown by one schedule: the tasks one after another, each to its end, and then
the results in order. -/

namespace Task

/-- What a task waits for, one after the other. -/
def script (result : Except ReceiverError (List Item)) (handle : ItemHandler) : List TaskMove :=
  .poll result :: match result with
    | .ok items => items.flatMap fun item => [.handle (handle item), .tell]
    | .error _ => []

/-- A task that has items in hand gets through with them. -/
theorem run_items (found : List Item) (handled : List (Item × Except Fault Unit)) (item : Item)
    (rest : List Item) (handle : ItemHandler) :
    (handing found handled item rest).run?
        ((item :: rest).flatMap fun item => [.handle (handle item), .tell]) =
      some (.ended ⟨.found found, handled ++ (item :: rest).map fun item => (item, handle item)⟩) := by
  induction rest generalizing handled item with
  | nil => rfl
  | cons next rest ih =>
      have more := ih (handled ++ [(item, handle item)]) next
      rw [List.append_assoc] at more
      exact more

/-- A task that gets all that it waits for ends. -/
theorem run_script (result : Except ReceiverError (List Item)) (handle : ItemHandler) :
    waiting.run? (script result handle) = some (.ended (pollOnce (.ofResult result) handle)) := by
  cases result with
  | error cause => rfl
  | ok items =>
      cases items with
      | nil => rfl
      | cons item rest => exact run_items (item :: rest) [] item rest handle

end Task

namespace Polls

theorem run_append (p : Polls δ) (first second : List Move) :
    p.run? (first ++ second) = (p.run? first).bind fun q => q.run? second := by
  rw [run?, List.foldlM_append]
  rfl

/-- One task can go on while all others wait. -/
theorem run_go {place : Nat} {d : Due δ} {task next : Task} {moves : List TaskMove}
    (here : p.At place d task) (leads : task.run? moves = some next) :
    ∃ q, p.run? (moves.map (.go place)) = some q ∧ q.At place d next ∧ q.joined = p.joined ∧
      ∀ other, other ≠ place → q.tasks[other]? = p.tasks[other]? := by
  induction moves generalizing p task with
  | nil =>
      cases leads
      exact ⟨p, rfl, here, rfl, fun _ _ => rfl⟩
  | cons move rest ih =>
      rw [Task.run_cons] at leads
      obtain ⟨⟨between, events⟩, step, later⟩ := Option.bind_eq_some_iff.mp leads
      obtain ⟨bound, -⟩ := List.getElem?_eq_some_iff.mp here
      have first : p.step? (.go place move) = some ⟨p.tasks.set place (d, between),
          p.trace ++ events.map (d.key, ·), p.joined⟩ := by
        rw [At] at here
        simp only [step?, here, step, Option.map_some]
      obtain ⟨q, run, there, joined, others⟩ :=
        ih (p := ⟨p.tasks.set place (d, between), p.trace ++ events.map (d.key, ·), p.joined⟩)
          (List.getElem?_set_self bound) later
      refine ⟨q, ?_, there, joined, ?_⟩
      · rw [List.map_cons, run_cons, first, Option.bind_some]
        exact run
      · intro other apart
        rw [others other apart]
        exact List.getElem?_set_ne apart.symm

variable (due : List (Due δ)) (result : Due δ → Except ReceiverError (List Item))
  (handle : ItemHandler)

/-- Where all tasks but the first ones wait. -/
theorem exists_polled (count : Nat) : ∃ moves p, (start due).run? moves = some p ∧ p.joined = [] ∧
    ∀ place d, due[place]? = some d → p.At place d
      (if place < count then .ended (pollOnce (.ofResult (result d)) handle) else .waiting) := by
  induction count with
  | zero =>
      refine ⟨[], start due, rfl, rfl, ?_⟩
      intro place d target
      rw [At, start, List.getElem?_map, target]
      rfl
  | succ count ih =>
      obtain ⟨moves, p, run, joined, tasks⟩ := ih
      cases target : due[count]? with
      | none =>
          -- There are no more tasks.
          have beyond := List.getElem?_eq_none_iff.mp target
          refine ⟨moves, p, run, joined, ?_⟩
          intro place d member
          obtain ⟨bound, -⟩ := List.getElem?_eq_some_iff.mp member
          have here := tasks place d member
          rw [if_pos (by omega)] at here ⊢
          exact here
      | some d =>
          have here := tasks count d target
          rw [if_neg (Nat.lt_irrefl count)] at here
          obtain ⟨q, more, there, same, others⟩ := run_go here (Task.run_script (result d) handle)
          refine ⟨moves ++ (Task.script (result d) handle).map (.go count), q, ?_, ?_, ?_⟩
          · rw [run_append, run, Option.bind_some]
            exact more
          · rw [same, joined]
          · intro place e member
            rcases Nat.lt_trichotomy place count with less | equal | greater
            · have before := tasks place e member
              rw [if_pos less] at before
              rw [if_pos (by omega), At, others place (by omega)]
              exact before
            · subst equal
              rw [target] at member
              cases member
              rw [if_pos (by omega)]
              exact there
            · have before := tasks place e member
              rw [if_neg (by omega)] at before
              rw [if_neg (by omega), At, others place (by omega)]
              exact before

/-- Where all tasks have ended, the results can be awaited one after the other. -/
theorem exists_joined (count : Nat) (enough : count ≤ due.length) :
    ∃ moves p, (start due).run? moves = some p ∧ p.joined.length = count ∧
      ∀ place d, due[place]? = some d →
        p.At place d (.ended (pollOnce (.ofResult (result d)) handle)) := by
  induction count with
  | zero =>
      obtain ⟨moves, p, run, joined, tasks⟩ := exists_polled due result handle due.length
      refine ⟨moves, p, run, by rw [joined, List.length_nil], ?_⟩
      intro place d target
      obtain ⟨bound, -⟩ := List.getElem?_eq_some_iff.mp target
      have here := tasks place d target
      rwa [if_pos bound] at here
  | succ count ih =>
      obtain ⟨moves, p, run, length, tasks⟩ := ih (by omega)
      obtain ⟨d, target⟩ : ∃ d, due[count]? = some d := ⟨_, List.getElem?_eq_getElem enough⟩
      let outcome := (d.key, (pollOnce (.ofResult (result d)) handle).productive)
      have awaited : p.step? .join = some { p with joined := p.joined ++ [outcome] } := by
        have here := tasks count d target
        rw [At, ← length] at here
        simp only [step?, here]
        rfl
      refine ⟨moves ++ [.join], { p with joined := p.joined ++ [outcome] }, ?_, ?_, tasks⟩
      · rw [run_append, run, Option.bind_some, run_cons, awaited, Option.bind_some]
        rfl
      · rw [List.length_append, length]
        rfl

/-- Whatever the polls and the handler answer, there is a schedule by which the round ends. -/
theorem exists_schedule (distinct : (due.map Due.key).Nodup) :
    ∃ moves p, (start due).run? moves = some p ∧ p.isDone = true ∧
      ∀ d ∈ due, p.report? d.key = some (pollOnce (.ofResult (result d)) handle) := by
  obtain ⟨moves, p, run, length, tasks⟩ := exists_joined due result handle due.length le_rfl
  have tells := (tells_start due).run distinct run
  refine ⟨moves, p, run, ?_, ?_⟩
  · apply beq_iff_eq.mpr
    rw [length, ← tells.targets, List.length_map]
  · intro d member
    obtain ⟨place, target⟩ := List.mem_iff_getElem?.mp member
    exact tells.report?_eq distinct (tasks place d target)

end Polls

/-! ### The whole round

Drain, polls and settling put together, for all targets and for every order of the tasks. -/

/-- In a round all targets whose second has begun are polled, each once and no other.  Every item that was
found is handed over once and in order, and its target is then told once whether it was processed; every
poll is counted once.  A target that found something goes back to its least interval, another one takes one
backoff step, and each waits for the second in which its new interval ends; the others wait as before.  None
of this depends on the order in which the tasks go on, so a round is what its polls and the handler answer. -/
theorem round_in_any_order (operations : List (Operation δ)) (wake settle : Instant)
    (scheduled : ∀ key e, Scheduler.entry? ((Scheduler.empty : Scheduler δ).after operations) key =
      some e → ∃ second, e.phase = .scheduled second) :
    let s := (Scheduler.empty : Scheduler δ).after operations
    let due := (s.drain wake).1
    ((due.map Due.key).Nodup ∧
      (∀ key, key ∈ due.map Due.key ↔
        ∃ e second, s.entry? key = some e ∧ e.phase = .scheduled second ∧ second ≤ wake.seconds) ∧
      ∀ d ∈ due, ∃ e, s.entry? d.key = some e ∧ d = Due.ofEntry d.key e) ∧
    (∀ moves p, (start due).run? moves = some p → p.isDone = true →
      let final := settleAll settle (s.drain wake).2 p.joined
      ((∀ x ∈ p.trace, x.1 ∈ due.map Due.key) ∧
        (∀ key ∉ due.map Due.key, p.report? key = none) ∧
        ∀ d ∈ due, ∃ report event, p.report? d.key = some report ∧ report.IsComplete ∧
          report.result.event? = some event ∧
          p.ownEvents d.key = .polled report.result :: .counted event :: handed report.handled) ∧
      (∀ key, final.entry? key = (s.entry? key).map fun e =>
        match p.report? key with
        | some report => rearmed settle report.productive e
        | none => e) ∧
      (∀ key e, final.entry? key = some e →
        ∃ second, e.phase = .scheduled second ∧ key ∈ Buckets.keysAt second final.buckets) ∧
      (∀ other q, (start due).run? other = some q → q.isDone = true →
        (∀ place, movesAt place other = movesAt place moves) →
        settleAll settle (s.drain wake).2 q.joined = final ∧
          ∀ key, q.ownEvents key = p.ownEvents key) ∧
      ∀ poll handle, (∀ d ∈ due, ∀ event ∈ p.ownEvents d.key, event.Follows (poll d) handle) →
        round s wake settle poll handle = ⟨due.map fun d => (d, pollOnce (poll d) handle), final⟩) ∧
    ∀ (result : Due δ → Except ReceiverError (List Item)) (handle : ItemHandler),
      ∃ moves p, (start due).run? moves = some p ∧ p.isDone = true ∧
        ∀ d ∈ due, p.report? d.key = some (pollOnce (.ofResult (result d)) handle) := by
  intro s due
  have consistent : s.Consistent := Scheduler.consistent_after operations
  have distinct : (due.map Due.key).Nodup := nodup_due consistent wake
  refine ⟨⟨distinct, ?_, fun d member => exists_ofEntry member⟩, ?_,
    fun result handle => exists_schedule due result handle distinct⟩
  · intro key
    rw [mem_due_iff consistent]
    constructor
    · rintro ⟨second, begun, waits⟩
      obtain ⟨e, found, phase⟩ := (s.waits_iff key second).mp waits
      exact ⟨e, second, found, phase, begun⟩
    · rintro ⟨e, second, found, phase, begun⟩
      exact ⟨second, begun, (s.waits_iff key second).mpr ⟨e, found, phase⟩⟩
  · intro moves p run done final
    have tells : Tells due p := (tells_start due).run distinct run
    refine ⟨⟨tells.known, fun key absent => tells.report?_eq_none absent, ?_⟩,
      entry?_round consistent tells done, waits_round consistent tells done scheduled, ?_, ?_⟩
    · intro d member
      obtain ⟨report, reported, complete, events, -⟩ := exists_report tells distinct done member
      obtain ⟨event, counted, explicit⟩ := events_of_complete complete
      exact ⟨report, event, reported, complete, counted, events.trans explicit⟩
    · intro other q runOther doneOther same
      obtain ⟨joined, own⟩ := same_of_movesAt distinct run runOther done doneOther same
      exact ⟨congrArg (settleAll settle (s.drain wake).2) joined, own⟩
    · intro poll handle follows
      exact round_eq consistent tells done follows

/-- Two targets that are due at once, polled the other way round: one finds an item that its handler does not
take, the other finds nothing. -/
theorem two_targets_in_turn :
    let operations : List (Operation Unit) :=
      [.register "a" (.ofSecs 1) (.ofSecs 10) (), .register "b" (.ofSecs 1) (.ofSecs 10) (),
        .scheduleNext "a" ⟨0⟩, .scheduleNext "b" ⟨0⟩]
    let s := (Scheduler.empty : Scheduler Unit).after operations
    let wake : Instant := ⟨1_000000000⟩
    let settle : Instant := ⟨1_500000000⟩
    let moves : List Move :=
      [.go 1 (.poll (.ok [.ofBody "b" []])), .go 0 (.poll (.ok [])),
        .go 1 (.handle (.error ItemHandler.configuredFault)), .go 1 .tell, .join, .join]
    (∀ key e, s.entry? key = some e → ∃ second, e.phase = .scheduled second) ∧
      ∃ p, (start (s.drain wake).1).run? moves = some p ∧ p.isDone = true ∧
        Scheduler.entry? (settleAll settle (s.drain wake).2 p.joined) "a" =
          (s.entry? "a").map (rearmed settle false) ∧
        Scheduler.entry? (settleAll settle (s.drain wake).2 p.joined) "b" =
          (s.entry? "b").map (rearmed settle true) := by
  intro operations s wake settle moves
  have scheduled : ∀ key e, s.entry? key = some e → ∃ second, e.phase = .scheduled second := by
    have all : ∀ x ∈ s.entries.entries, x.2.phase = .scheduled 1 := by decide +kernel
    intro key e found
    exact ⟨1, all (key, e) (Table.mem_of_find? found)⟩
  have possible : ((start (s.drain wake).1).run? moves).isSome = true := by decide +kernel
  obtain ⟨p, run⟩ := Option.isSome_iff_exists.mp possible
  have ran : ((start (s.drain wake).1).run? moves).map (fun p => (p.isDone,
      (p.report? "a").map productive, (p.report? "b").map productive)) =
        some (true, some false, some true) := by decide +kernel
  rw [run, Option.map_some, Option.some.injEq, Prod.mk.injEq, Prod.mk.injEq] at ran
  obtain ⟨done, first, second⟩ := ran
  obtain ⟨-, anyRun, -⟩ := round_in_any_order operations wake settle scheduled
  obtain ⟨-, entries, -⟩ := anyRun moves p run done
  obtain ⟨reportA, reportedA, emptyA⟩ := Option.map_eq_some_iff.mp first
  obtain ⟨reportB, reportedB, foundB⟩ := Option.map_eq_some_iff.mp second
  have entryA := entries "a"
  have entryB := entries "b"
  simp only [reportedA, emptyA] at entryA
  simp only [reportedB, foundB] at entryB
  exact ⟨scheduled, p, run, done, entryA, entryB⟩

end Scheduled

end Intake
