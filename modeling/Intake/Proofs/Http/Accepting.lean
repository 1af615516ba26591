/-
Module: Intake.Proofs.Http.Accepting
Purpose: Whatever accepts come to and whenever it is cancelled, an accept loop accounts for its connections.
Main exports: Http.AcceptLoop.Run.Stands, Http.AcceptLoop.Run.Keeps, Http.AcceptLoop.Run.Keeps.run,
  Http.AcceptLoop.Run.exists_over, Http.AcceptLoop.Run.run_accounts_for_every_connection

Where the loop is decides how far its course has come; what the tasks do has no part in it.
-/
import Mathlib.Algebra.GroupWithZero.Nat
import Mathlib.Data.Nat.Basic
import Mathlib.Order.Basic
import Intake.Proofs.Http.AcceptSteps
import Intake.Proofs.Observe.ItemCounts

namespace Intake

namespace Http.AcceptLoop

variable {κ : Type} {timing : Timing}

/-! ### What comes before a stop

A loop that has stopped has a last round that was cut short.  Behind the stop, events are only added, so the
part of the trace in front of it is settled. -/

section Stopped

variable {trace after : List (Nat × Event κ)} {stop : Nat}

/-- Results and doings decide what came before the stop. -/
theorem Stopped.congr {trace' : List (Nat × Event κ)} (h : Stopped timing trace stop after)
    (results : yields trace' = yields trace) (course : doings trace' = doings trace) :
    Stopped timing trace' stop after := by
  rw [Stopped, results, course]
  exact h

/-- What follows the stop is added to it. -/
theorem Stopped.append {moment : Nat} {event : Event κ}
    (h : Stopped timing trace stop after) (noYield : yields [(moment, event)] = [])
    (own : event.isDoing = true) :
    Stopped timing (trace ++ [(moment, event)]) stop (after ++ [(moment, event)]) := by
  obtain ⟨results, rounds, cut, unfinished, past, rest, yielded, done⟩ := h
  refine ⟨results, rounds, cut, unfinished, past, rest, ?_, ?_⟩
  · rw [yields_append, noYield, List.append_nil, yielded]
  · rw [doings_append, done]
    simp [doings, own]

/-- The stop and all that follows it are in the trace. -/
theorem Stopped.mem (h : Stopped timing trace stop after) :
    ∀ x ∈ (stop, .stopped) :: after, x ∈ trace := by
  obtain ⟨results, rounds, cut, unfinished, -, -, -, done⟩ := h
  intro x member
  have whole : x ∈ doings trace := by
    rw [done]
    exact List.mem_append_right _ member
  exact (List.mem_filter.mp whole).1

end Stopped

namespace Run

variable {maxAccepts : Nat} {r next : Run κ}

/-! ### The course of the loop

The results of the accepts and what the loop did about them make its course.  It is compared with the course
that the results alone call for. -/

/-- How far the course of a run has come, by where the loop is. -/
def Stands (timing : Timing) (r : Run κ) : Prop :=
  match r.phase with
  | .acquiring => Rounds timing (yields r.trace) (doings r.trace)
  | .reaping => Rounds timing (yields r.trace) (doings r.trace)
  | .accepting => ∃ rounds tried, Rounds timing (yields r.trace) rounds ∧
      doings r.trace = rounds ++ [(tried, .attempted)]
  | .pausing deadline => ∃ results rounds error tried got, Rounds timing results rounds ∧
      error.concernsConnection = false ∧ deadline = got + timing.pause.nanos ∧
      yields r.trace = results ++ [.failed error] ∧
      doings r.trace = rounds ++
        [(tried, .attempted), (got, .yielded (.failed error)), (got, .paused)]
  | .draining deadline => r.cancelled = true ∧ ∃ stop, deadline = stop + timing.drain.nanos ∧
      Stopped timing r.trace stop []
  | .aborting => r.cancelled = true ∧ ∃ stop expiry, stop + timing.drain.nanos ≤ expiry ∧
      Stopped timing r.trace stop [(expiry, .expired)]
  | .returned failure => failure = none ∧ r.cancelled = true ∧
      ∃ stop closing, Stopped timing r.trace stop closing ∧ Closing timing stop closing

namespace Stands

/-- Before the first accept, nothing has been done. -/
theorem start (timing : Timing) (maxAccepts : Nat) :
    Stands timing (start maxAccepts : Run κ) := Rounds.none

/-- Whatever leaves the phase, the results and the doings alone. -/
theorem congr (h : Stands timing r) (phase : next.phase = r.phase)
    (cancelled : r.cancelled = true → next.cancelled = true)
    (results : yields next.trace = yields r.trace) (course : doings next.trace = doings r.trace) :
    Stands timing next := by
  rw [Stands] at h ⊢
  rw [phase, results, course]
  cases where_ : r.phase with
  | draining deadline =>
      rw [where_] at h
      obtain ⟨was, stop, due, stopped⟩ := h
      exact ⟨cancelled was, stop, due, stopped.congr results course⟩
  | aborting =>
      rw [where_] at h
      obtain ⟨was, stop, expiry, late, stopped⟩ := h
      exact ⟨cancelled was, stop, expiry, late, stopped.congr results course⟩
  | returned failure =>
      rw [where_] at h
      obtain ⟨fine, was, stop, closing, stopped, closed⟩ := h
      exact ⟨fine, cancelled was, stop, closing, stopped.congr results course, closed⟩
  | _ =>
      rw [where_] at h
      exact h

/-- The loop stops with a round cut short. -/
theorem stop {freed : Run κ} (trace : freed.trace = r.trace) (cancelled : freed.cancelled = true)
    {results cut : List (AcceptEnd κ)} {rounds unfinished : List (Nat × Event κ)}
    (past : Rounds timing results rounds) (rest : Cut cut unfinished)
    (yielded : yields r.trace = results ++ cut) (done : doings r.trace = rounds ++ unfinished) :
    Stands timing (freed.stop timing) := by
  refine ⟨cancelled, freed.now, rfl, results, rounds, cut, unfinished, past, rest, ?_, ?_⟩
  · rw [Run.stop, record, trace, yields_append, yielded]
    exact List.append_nil _
  · rw [Run.stop, record, trace, doings_append, done]
    rfl

/-- Every move takes the course further as the results call for. -/
theorem step (h : Stands timing r) (permitted : Permitted maxAccepts r) (placed : Placed r)
    (step : Step timing r next) : Stands timing next := by
  cases step with
  | cancel => exact h.congr rfl (fun _ => rfl) rfl rfl
  | pass nanos => exact h.congr rfl id rfl rfl
  | refused closed failure =>
      rw [permitted.opened] at closed
      cases closed
  | acquire free phase permits =>
      rw [Stands, phase] at h
      refine ⟨doings r.trace, r.now, ?_, ?_⟩
      · simpa [record, yields_append, yields] using h
      · simp [record, doings, Event.isDoing]
  | connected connection phase =>
      rw [Stands, phase] at h
      obtain ⟨rounds, tried, past, done⟩ := h
      have place : r.connections.length = (accepted (yields r.trace)).length := by
        rw [← placed.handed, List.length_map]
      have round := past.next (.connected connection tried r.now)
      simp only [Stands, yields_append, doings_append, done, place]
      simpa [yields, doings, Event.isDoing] using round
  | connectionError error phase passing =>
      rw [Stands, phase] at h
      obtain ⟨rounds, tried, past, done⟩ := h
      have round := past.next (.connectionError error tried r.now passing)
      simp only [Stands, yields_append, doings_append, done]
      simpa [yields, doings, Event.isDoing] using round
  | listenerError error phase lasting =>
      rw [Stands, phase] at h
      obtain ⟨rounds, tried, past, done⟩ := h
      refine ⟨yields r.trace, rounds, error, tried, r.now, past, lasting, rfl, ?_, ?_⟩
      · simp [yields]
      · simp only [doings_append, done]
        simp [doings, Event.isDoing]
  | resume deadline phase due =>
      rw [Stands, phase] at h
      obtain ⟨results, rounds, error, tried, got, past, lasting, rfl, yielded, done⟩ := h
      have round := past.next (.listenerError error tried got r.now lasting due)
      simp only [Stands, record, yields_append, doings_append, done, yielded]
      simpa [yields, doings, Event.isDoing] using round
  | next phase =>
      rw [Stands, phase] at h
      exact h
  | stop cancelled phase =>
      rcases phase with phase | ⟨deadline, phase⟩
      · rw [Stands, phase] at h
        exact stop rfl cancelled h .acquiring (List.append_nil _).symm (List.append_nil _).symm
      · rw [Stands, phase] at h
        obtain ⟨results, rounds, error, tried, got, past, lasting, -, yielded, done⟩ := h
        exact stop rfl cancelled past (.pausing error tried got lasting) yielded done
  | stopAccepting cancelled phase =>
      rw [Stands, phase] at h
      obtain ⟨rounds, tried, past, done⟩ := h
      exact stop rfl cancelled past (.accepting tried) (List.append_nil _).symm done
  | finish place connection result allowed found =>
      refine h.congr rfl id ?_ ?_
      · exact (yields_append ..).trans (List.append_nil _)
      · exact (doings_append ..).trans (List.append_nil _)
  | join place connection result joins found =>
      refine h.congr rfl id ?_ ?_
      · exact (yields_append ..).trans (List.append_nil _)
      · exact (doings_append ..).trans (List.append_nil _)
  | expire deadline phase due =>
      rw [Stands, phase] at h
      obtain ⟨cancelled, stop, rfl, stopped⟩ := h
      exact ⟨cancelled, stop, r.now, due, stopped.append rfl rfl⟩
  | close phase drained =>
      rcases phase with ⟨deadline, phase⟩ | phase
      · rw [Stands, phase] at h
        obtain ⟨cancelled, stop, -, stopped⟩ := h
        exact ⟨rfl, cancelled, stop, _, stopped.append rfl rfl, .drained r.now⟩
      · rw [Stands, phase] at h
        obtain ⟨cancelled, stop, expiry, late, stopped⟩ := h
        exact ⟨rfl, cancelled, stop, _, stopped.append rfl rfl, .expired expiry r.now late⟩

end Stands

/-! ### The end

A loop that has stopped waits for its tasks, and aborts those that are left when its deadline has passed.  It
returns when it has taken note of the end of every task. -/

/-- A task that was aborted had gone on for as long as it might. -/
def Overdue (timing : Timing) (r : Run κ) : Prop :=
  ∀ moment place, (moment, .ended place .aborted) ∈ r.trace →
    ∃ stop, (stop, .stopped) ∈ r.trace ∧ stop + timing.drain.nanos ≤ moment

/-- Once the loop has returned, no task is left and nothing more happens. -/
def Ended (r : Run κ) : Prop :=
  ∀ failure, r.phase = .returned failure → r.isDrained = true ∧
    ∃ before moment, r.trace = before ++ [(moment, .returned failure)]

/-- At the start there is no task that could have been aborted. -/
theorem Overdue.start (timing : Timing) (maxAccepts : Nat) :
    Overdue timing (start maxAccepts : Run κ) := by
  intro moment place member
  cases member

/-- Nothing is forgotten, and only the loop that aborts its tasks sees one aborted. -/
theorem Overdue.step (h : Overdue timing r) (stands : Stands timing r) (clocked : Clocked r)
    (step : Step timing r next) : Overdue timing next := by
  have carry {events : List (Nat × Event κ)} (trace : next.trace = r.trace ++ events)
      (none : ∀ moment place, (moment, .ended place .aborted) ∉ events) : Overdue timing next := by
    intro moment place member
    rw [trace] at member ⊢
    rcases List.mem_append.mp member with old | new
    · obtain ⟨stop, stopped, late⟩ := h moment place old
      exact ⟨stop, List.mem_append_left _ stopped, late⟩
    · exact absurd new (none moment place)
  cases step with
  | cancel => exact h
  | pass nanos => exact h
  | next phase => exact h
  | refused closed failure => exact carry rfl (by simp)
  | acquire free phase permits => exact carry rfl (by simp)
  | connected connection phase => exact carry rfl (by simp)
  | connectionError error phase passing => exact carry rfl (by simp)
  | listenerError error phase lasting => exact carry rfl (by simp)
  | resume deadline phase due => exact carry rfl (by simp)
  | stop cancelled phase => exact carry rfl (by simp)
  | stopAccepting cancelled phase => exact carry rfl (by simp)
  | join place connection result joins found => exact carry rfl (by simp)
  | expire deadline phase due => exact carry rfl (by simp)
  | close phase drained => exact carry rfl (by simp)
  | finish place connection result allowed found =>
      cases result with
      | finished => exact carry rfl (by simp)
      | crashed => exact carry rfl (by simp)
      | aborted =>
          have phase : r.phase = .aborting := by
            cases where_ : r.phase with
            | aborting => rfl
            | _ =>
                rw [where_] at allowed
                cases allowed
          rw [Stands, phase] at stands
          obtain ⟨-, stop, expiry, late, stopped⟩ := stands
          intro moment i member
          rcases List.mem_append.mp member with old | new
          · obtain ⟨stop, stopped, late⟩ := h moment i old
            exact ⟨stop, List.mem_append_left _ stopped, late⟩
          · obtain ⟨rfl, -⟩ : moment = r.now ∧ i = place := by simpa [put] using new
            have passed : expiry ≤ r.now := clocked.past (expiry, .expired) (stopped.mem _ (by simp))
            exact ⟨stop, List.mem_append_left _ (stopped.mem _ (by simp)), Nat.le_trans late passed⟩

/-- The loop has not returned before it starts. -/
theorem Ended.start (maxAccepts : Nat) : Ended (start maxAccepts : Run κ) := by
  intro failure phase
  cases phase

/-- A loop returns only with no task left, and then neither it nor any task does anything more. -/
theorem Ended.step (h : Ended r) (permitted : Permitted maxAccepts r) (step : Step timing r next) :
    Ended next := by
  intro failure phase
  cases step with
  | cancel => exact h failure phase
  | pass nanos => exact h failure phase
  | refused closed failure =>
      rw [permitted.opened] at closed
      cases closed
  | finish place connection result allowed found =>
      have joined := List.all_eq_true.mp (h failure phase).1 _ (List.mem_of_getElem? found)
      cases joined
  | join place connection result joins found =>
      have joined := List.all_eq_true.mp (h failure phase).1 _ (List.mem_of_getElem? found)
      cases joined
  | close phase' drained =>
      cases phase
      exact ⟨drained, r.trace, r.now, rfl⟩
  | _ => cases phase

/-! ### What every run keeps

The invariants of the loop are put together here, because the proofs about its course and its end use those
about permits, clock and tasks. -/

/-- What every run keeps, from one move to the next. -/
structure Keeps (timing : Timing) (maxAccepts : Nat) (r : Run κ) : Prop where
  permitted : Permitted maxAccepts r
  clocked : Clocked r
  placed : Placed r
  told : Told r
  stands : Stands timing r
  overdue : Overdue timing r
  ended : Ended r

namespace Keeps

/-- What every run keeps holds before the first move. -/
theorem start (timing : Timing) (maxAccepts : Nat) :
    Keeps timing maxAccepts (start maxAccepts : Run κ) where
  permitted := .start maxAccepts
  clocked := .start maxAccepts
  placed := .start maxAccepts
  told := .start maxAccepts
  stands := .start timing maxAccepts
  overdue := .start timing maxAccepts
  ended := .start maxAccepts

/-- Every move keeps it. -/
theorem step {move : Move κ} (h : Keeps timing maxAccepts r)
    (moved : r.step? timing move = some next) : Keeps timing maxAccepts next :=
  have step := step_of_move moved
  { permitted := h.permitted.step step
    clocked := h.clocked.step step
    placed := h.placed.step step
    told := h.told.step step
    stands := h.stands.step h.permitted h.placed step
    overdue := h.overdue.step h.stands h.clocked step
    ended := h.ended.step h.permitted step }

/-- So does every run. -/
theorem run {moves : List (Move κ)} (h : Keeps timing maxAccepts r)
    (run : r.run? timing moves = some next) : Keeps timing maxAccepts next := by
  induction moves generalizing r with
  | nil =>
      cases run
      exact h
  | cons move moves ih =>
      rw [run?, List.foldlM_cons] at run
      obtain ⟨between, first, rest⟩ := Option.bind_eq_some_iff.mp run
      exact ih (h.step first) rest

end Keeps

/-- Each connection that was accepted is counted once. -/
theorem recordAll_connections (connections : List (Connection κ)) (m : Metrics) (now : Nat) :
    m.recordAll now (connections.map fun _ => .connectionAccepted) =
      { m with connectionsAccepted := m.connectionsAccepted + connections.length } := by
  induction connections generalizing m with
  | nil => rfl
  | cons first rest ih =>
      rw [List.map_cons, Metrics.recordAll_cons, ih, List.length_cons, Nat.add_comm rest.length,
        ← Nat.add_assoc]
      rfl

/-- Once it is over, nothing is left to account for. -/
theorem Keeps.accounted (h : Keeps timing maxAccepts r) (finished : r.isOver = true) :
    r.Accounted timing maxAccepts := by
  obtain ⟨failure, phase⟩ : ∃ failure, r.phase = .returned failure := by
    rw [isOver] at finished
    split at finished
    · next failure phase => exact ⟨failure, phase⟩
    · cases finished
  obtain ⟨drained, before, moment, whole⟩ := h.ended failure phase
  have stands := h.stands
  rw [Stands, phase] at stands
  obtain ⟨rfl, cancelled, stop, closing, stopped, closed⟩ := stands
  refine ⟨cancelled, phase, ⟨stop, closing, stopped, closed⟩, h.placed.handed, ?_, ?_, ?_, h.overdue,
    ?_, h.clocked.inOrder, before, moment, whole⟩
  · intro m now
    rw [h.placed.counted]
    exact recordAll_connections _ m now
  · intro place task found
    have joined := List.all_eq_true.mp drained _ (List.mem_of_getElem? found)
    obtain ⟨connection, stage⟩ := task
    cases stage with
    | joined result =>
        refine ⟨result, rfl, ?_⟩
        rw [h.told place, found]
        rfl
    | _ => cases joined
  · intro place beyond
    rw [h.told place, List.getElem?_eq_none beyond]
    rfl
  · obtain ⟨opened, free⟩ := h.permitted
    rw [phase] at free
    rw [← free, ← opened]
    rfl

/-! ### What can become of a run

A run is never stuck.  Whatever the next accepts come to, there is a run that continues it with these results,
and whenever the token is cancelled there is one that brings it to its end. -/

variable {last : Run κ} {move : Move κ} {more rest : List (Move κ)}

/-- One move, and the rest of the moves. -/
theorem run_cons (first : r.step? timing move = some next) (run : next.run? timing more = some last) :
    r.run? timing (move :: more) = some last := by
  rw [run?, List.foldlM_cons, first]
  exact run

/-- Moves one after another. -/
theorem run_append (first : r.run? timing more = some next) (run : next.run? timing rest = some last) :
    r.run? timing (more ++ rest) = some last := by
  rw [run?, List.foldlM_append]
  exact Option.bind_eq_some_iff.mpr ⟨next, first, run⟩

/-- A permit can be had at once. -/
theorem exists_acquired (permitted : Permitted maxAccepts r) (phase : r.phase = .acquiring) :
    ∃ next, r.step? timing .acquire = some next ∧ next.phase = .accepting ∧ next.now = r.now ∧
      yields next.trace = yields r.trace := by
  obtain ⟨opened, whole⟩ := permitted
  obtain ⟨free, permits⟩ : ∃ free, r.semaphore = ⟨free + 1, false⟩ := by
    rw [phase, AcceptLoop.permits] at whole
    refine ⟨r.semaphore.free - 1, ?_⟩
    have positive : r.semaphore.free - 1 + 1 = r.semaphore.free := by
      simp only [held] at whole
      omega
    rw [positive, ← opened]
  have moved : r.step? timing .acquire = some
      ({ r with phase := .accepting, semaphore := ⟨free, false⟩ }.record [.attempted]) := by
    simp only [step?, phase, permits]
  exact ⟨_, moved, rfl, rfl, (yields_append ..).trans (List.append_nil _)⟩

/-- A loop that has not stopped can try again, at once or after its pause. -/
theorem exists_trying (h : Keeps timing maxAccepts r) (looping : r.isLooping = true) :
    ∃ more next, Undisturbed more ∧ r.run? timing more = some next ∧ next.phase = .accepting ∧
      next.now = r.readyAt ∧ yields next.trace = yields r.trace := by
  cases phase : r.phase with
  | accepting =>
      refine ⟨[], r, by simp [Undisturbed], rfl, phase, ?_, rfl⟩
      rw [readyAt, phase]
  | acquiring =>
      obtain ⟨next, moved, tries, now, same⟩ := exists_acquired h.permitted phase
      refine ⟨[.acquire], next, by simp [Undisturbed], run_cons moved rfl, tries, ?_, same⟩
      rw [now, readyAt, phase]
  | reaping =>
      have moved : r.step? timing .next = some { r with phase := .acquiring } := by
        rw [step?, phase]
      obtain ⟨next, moved', tries, now, same⟩ := exists_acquired (h.step moved).permitted rfl
      refine ⟨[.next, .acquire], next, by simp [Undisturbed], run_cons moved (run_cons moved' rfl),
        tries, ?_, same⟩
      rw [now, readyAt, phase]
  | pausing deadline =>
      let later : Run κ := { r with now := r.now + (deadline - r.now) }
      let back : Run κ := { later with phase := .reaping }.record [.resumed]
      have waited : r.step? timing (.pass (deadline - r.now)) = some later := rfl
      have resumed : later.step? timing .resume = some back := by
        have due : deadline ≤ later.now := by
          simp only [later]
          omega
        simp only [step?, later, phase]
        exact if_pos due
      have free : back.step? timing .next = some { back with phase := .acquiring } := rfl
      have keeps := ((h.step waited).step resumed).step free
      obtain ⟨next, moved, tries, now, same⟩ := exists_acquired keeps.permitted rfl
      refine ⟨[.pass (deadline - r.now), .resume, .next, .acquire], next, by simp [Undisturbed],
        run_cons waited (run_cons resumed (run_cons free (run_cons moved rfl))), tries, ?_, ?_⟩
      · rw [now, readyAt, phase]
        simp only [back, later, record]
        omega
      · rw [same]
        exact (yields_append ..).trans (List.append_nil _)
  | draining deadline =>
      rw [isLooping, phase] at looping
      cases looping
  | aborting =>
      rw [isLooping, phase] at looping
      cases looping
  | returned failure =>
      rw [isLooping, phase] at looping
      cases looping

/-- No result of an accept ends the loop. -/
theorem afterAccept_goes_on (timing : Timing) (r : Run κ) (result : AcceptEnd κ) :
    (r.afterAccept timing result).isLooping = true ∧
      yields (r.afterAccept timing result).trace = yields r.trace ++ [result] := by
  cases result with
  | connected connection =>
      exact ⟨rfl, by simp [afterAccept, record, release, yields]⟩
  | failed error =>
      rw [afterAccept]
      cases error.concernsConnection with
      | true => exact ⟨rfl, by simp [record, release, yields]⟩
      | false => exact ⟨rfl, by simp [record, release, yields]⟩

/-- Neither does any sequence of them. -/
theorem exists_results (h : Keeps timing maxAccepts r) (looping : r.isLooping = true)
    (results : List (AcceptEnd κ)) :
    ∃ more next, Undisturbed more ∧ r.run? timing more = some next ∧ next.isLooping = true ∧
      yields next.trace = yields r.trace ++ results := by
  induction results generalizing r with
  | nil => exact ⟨[], r, by simp [Undisturbed], rfl, looping, (List.append_nil _).symm⟩
  | cons result results ih =>
      obtain ⟨trying, ready, calm, run, tries, -, same⟩ := exists_trying h looping
      have moved : ready.step? timing (.accept result) = some (ready.afterAccept timing result) := by
        rw [step?, tries]
      obtain ⟨goes, yielded⟩ := afterAccept_goes_on timing ready result
      obtain ⟨more, next, calm', run', looping', yielded'⟩ := ih ((h.run run).step moved) goes
      refine ⟨trying ++ .accept result :: more, next, ?_, run_append run (run_cons moved run'),
        looping', ?_⟩
      · simp only [Undisturbed, List.mem_append, List.mem_cons] at calm calm' ⊢
        simp [calm, calm']
      · rw [yielded', yielded, same, List.append_assoc]
        rfl

/-- The moves that are left at most before a loop that aborts its tasks has taken note of one. -/
def Stage.left : Stage → Nat
  | .served => 2
  | .ended _ => 1
  | .joined _ => 0

def left (r : Run κ) : Nat := (r.connections.map (Stage.left ·.stage)).sum

/-- A task that goes on to a stage with less left makes less left of the run. -/
theorem left_put {place : Nat} {connection : Connection κ} {stage other : Stage}
    (found : r.connections[place]? = some ⟨connection, stage⟩)
    (less : Stage.left other < Stage.left stage) : (r.put place connection other).left < r.left := by
  obtain ⟨before, after, whole, changed⟩ := Lists.exists_split found
  rw [left, left, put, changed, whole]
  simp only [List.map_append, List.map_cons, List.sum_append, List.sum_cons]
  omega

/-- A loop that aborts its tasks can take note of them all. -/
theorem exists_over_of_aborting (timing : Timing) (phase : r.phase = .aborting) :
    ∃ more last, r.run? timing more = some last ∧ last.isOver = true := by
  induction left : r.left using Nat.strongRecOn generalizing r with
  | ind left' ih =>
      subst left
      cases drained : r.isDrained with
      | true => exact ⟨[.close], _, run_cons (by rw [step?, phase, drained]) rfl, rfl⟩
      | false =>
          obtain ⟨task, member, open_⟩ := List.all_eq_false.mp drained
          obtain ⟨place, found⟩ := List.mem_iff_getElem?.mp member
          obtain ⟨connection, stage⟩ := task
          cases stage with
          | served =>
              have moved : r.step? timing (.finish place .aborted) = some
                  ((r.put place connection (.ended .aborted)).record [.ended place .aborted]) := by
                simp only [step?, phase, found, Phase.allows]
              have less : (r.put place connection (.ended .aborted)).left < r.left :=
                left_put found (by decide)
              obtain ⟨more, last, run, finished⟩ := ih _ less
                (r := (r.put place connection (.ended .aborted)).record [.ended place .aborted])
                phase rfl
              exact ⟨_, last, run_cons moved run, finished⟩
          | ended result =>
              have moved : r.step? timing (.join place) = some
                  ((r.put place connection (.joined result)).record [.joined place]) := by
                simp only [step?, phase, found, Phase.joins]
              have less : (r.put place connection (.joined result)).left < r.left :=
                left_put found (by simp [Stage.left])
              obtain ⟨more, last, run, finished⟩ := ih _ less
                (r := (r.put place connection (.joined result)).record [.joined place]) phase rfl
              exact ⟨_, last, run_cons moved run, finished⟩
          | joined result => exact absurd rfl open_

/-- A loop that has stopped waits for its tasks no longer than it may. -/
theorem exists_over_of_draining (timing : Timing) {deadline : Nat} (phase : r.phase = .draining deadline) :
    ∃ more last, r.run? timing more = some last ∧ last.isOver = true := by
  cases drained : r.isDrained with
  | true => exact ⟨[.close], _, run_cons (by rw [step?, phase, drained]) rfl, rfl⟩
  | false =>
      let later : Run κ := { r with now := r.now + (deadline - r.now) }
      let expired : Run κ := { later with phase := .aborting }.record [.expired]
      have waited : r.step? timing (.pass (deadline - r.now)) = some later := rfl
      have expires : later.step? timing .expire = some expired := by
        have due : deadline ≤ later.now ∧ later.isDrained = false := by
          refine ⟨?_, drained⟩
          simp only [later]
          omega
        simp only [step?, later, phase]
        exact if_pos due
      obtain ⟨more, last, run, finished⟩ := exists_over_of_aborting timing (r := expired) rfl
      exact ⟨_, last, run_cons waited (run_cons expires run), finished⟩

/-- A loop that is cancelled can stop. -/
theorem exists_stopped (timing : Timing) (phase : r.phase = .acquiring ∨ r.phase = .accepting ∨
    ∃ deadline, r.phase = .pausing deadline) :
    ∃ last deadline, r.run? timing [.cancel, .stop] = some last ∧ last.phase = .draining deadline := by
  rcases phase with phase | phase | ⟨deadline, phase⟩
  · exact ⟨({ r with cancelled := true } : Run κ).stop timing, _, by simp [run?, step?, phase], rfl⟩
  · exact ⟨({ r with cancelled := true } : Run κ).release.stop timing, _,
      by simp [run?, step?, phase], rfl⟩
  · exact ⟨({ r with cancelled := true } : Run κ).stop timing, _, by simp [run?, step?, phase], rfl⟩

/-- However far a run is, it can be brought to its end. -/
theorem exists_over (timing : Timing) (r : Run κ) :
    ∃ more last, r.run? timing more = some last ∧ last.isOver = true := by
  have goes (phase : r.phase = .acquiring ∨ r.phase = .accepting ∨
      ∃ deadline, r.phase = .pausing deadline) :
      ∃ more last, r.run? timing more = some last ∧ last.isOver = true := by
    obtain ⟨stopped, deadline, run, phase⟩ := exists_stopped timing phase
    obtain ⟨more, last, run', finished⟩ := exists_over_of_draining timing phase
    exact ⟨_, last, run_append run run', finished⟩
  cases phase : r.phase with
  | acquiring => exact goes (.inl phase)
  | accepting => exact goes (.inr (.inl phase))
  | pausing deadline => exact goes (.inr (.inr ⟨deadline, phase⟩))
  | reaping =>
      have moved : r.step? timing .next = some { r with phase := .acquiring } := by
        rw [step?, phase]
      obtain ⟨stopped, deadline, run, phase⟩ :=
        exists_stopped timing (r := { r with phase := .acquiring }) (.inl rfl)
      obtain ⟨more, last, run', finished⟩ := exists_over_of_draining timing phase
      exact ⟨_, last, run_cons moved (run_append run run'), finished⟩
  | draining deadline => exact exists_over_of_draining timing phase
  | aborting => exact exists_over_of_aborting timing phase
  | returned failure => exact ⟨[], r, rfl, by rw [isOver, phase]⟩

/-- Whatever accepts come to, however long connections are served, whenever a run is cancelled and whichever
of two ready branches is taken: a run that has returned is accounted for, and every run can go on, whatever
accepts come to next, and can be brought to its end. -/
theorem run_accounts_for_every_connection (κ : Type) (timing : Timing) (maxAccepts : Nat) :
    (∀ moves (r : Run κ), (start maxAccepts).run? timing moves = some r → r.isOver = true →
      r.Accounted timing maxAccepts) ∧
    ∀ moves (r : Run κ), (start maxAccepts).run? timing moves = some r → r.GoesOn timing := by
  refine ⟨?_, ?_⟩
  · intro moves r run finished
    exact ((Keeps.start timing maxAccepts).run run).accounted finished
  · intro moves r run
    have keeps := (Keeps.start timing maxAccepts).run run
    exact ⟨exists_trying keeps, exists_results keeps, exists_over timing r⟩

end Run

end Http.AcceptLoop

end Intake
