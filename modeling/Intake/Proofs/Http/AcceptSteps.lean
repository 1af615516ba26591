/-
Module: Intake.Proofs.Http.AcceptSteps
Purpose: What one move of an accept loop does, and what runs keep of permits, of time and of connections.
Main exports: Http.AcceptLoop.Run.Step, Http.AcceptLoop.Run.step_of_move, Http.AcceptLoop.Run.Permitted,
  Http.AcceptLoop.Run.Clocked, Http.AcceptLoop.Run.Placed, Http.AcceptLoop.Run.Told

A move is one of a few steps, and each step leaves most of the run alone.  Each invariant here is kept by one
step without any of the others.
-/
import Intake.Http.AcceptTrace
import Intake.Proofs.Lists

namespace Intake

namespace Http.AcceptLoop

variable {κ : Type} {timing : Timing}

/-! ### Traces

The trace of a run is read in four ways: what the accepts yielded, what the loop did, which connections there
were and what happened to each.  All of them are read piece by piece. -/

theorem yields_append (one two : List (Nat × Event κ)) :
    yields (one ++ two) = yields one ++ yields two := List.filterMap_append

theorem doings_append (one two : List (Nat × Event κ)) :
    doings (one ++ two) = doings one ++ doings two := List.filter_append ..

theorem accepted_append (one two : List (AcceptEnd κ)) :
    accepted (one ++ two) = accepted one ++ accepted two := List.filterMap_append

theorem ownEvents_append (place : Nat) (one two : List (Nat × Event κ)) :
    ownEvents place (one ++ two) = ownEvents place one ++ ownEvents place two := by
  rw [ownEvents, List.map_append, List.filter_append]
  rfl

/-- All that has happened to a task, as its stage tells it. -/
def Task.tale (place : Nat) (t : Task κ) : List (Event κ) :=
  match t.stage with
  | .served => [.handed place t.connection]
  | .ended result => [.handed place t.connection, .ended place result]
  | .joined result => [.handed place t.connection, .ended place result, .joined place]

namespace Run

variable {maxAccepts : Nat} {r next : Run κ}

/-! ### What a move does

All that a move can do is said once, by the cases of `Step`, each with what must hold for it.  What a run
keeps is proved by these cases. -/

/-- What can happen to a run in one move. -/
inductive Step (timing : Timing) (r : Run κ) : Run κ → Prop where
  | cancel : Step timing r { r with cancelled := true }
  | pass (nanos : Nat) : Step timing r { r with now := r.now + nanos }
  | refused (closed : r.semaphore.closed = true) (failure : Option ReceiverError) :
      Step timing r (r.returning failure)
  | acquire (free : Nat) (phase : r.phase = .acquiring) (permits : r.semaphore = ⟨free + 1, false⟩) :
      Step timing r
        ({ r with phase := .accepting, semaphore := ⟨free, false⟩ }.record [.attempted])
  | connected (connection : Connection κ) (phase : r.phase = .accepting) :
      Step timing r { r.release with
        phase := .reaping
        connections := r.connections ++ [⟨connection, .served⟩]
        trace := r.trace ++ [(r.now, .yielded (.connected connection)),
          (r.now, .counted .connectionAccepted), (r.now, .handed r.connections.length connection)] }
  | connectionError (error : AcceptError) (phase : r.phase = .accepting)
      (passing : error.concernsConnection = true) :
      Step timing r { r.release with
        phase := .reaping
        trace := r.trace ++ [(r.now, .yielded (.failed error))] }
  | listenerError (error : AcceptError) (phase : r.phase = .accepting)
      (lasting : error.concernsConnection = false) :
      Step timing r { r.release with
        phase := .pausing (r.now + timing.pause.nanos)
        trace := r.trace ++ [(r.now, .yielded (.failed error)), (r.now, .paused)] }
  | resume (deadline : Nat) (phase : r.phase = .pausing deadline) (due : deadline ≤ r.now) :
      Step timing r ({ r with phase := .reaping }.record [.resumed])
  | next (phase : r.phase = .reaping) : Step timing r { r with phase := .acquiring }
  | stop (cancelled : r.cancelled = true)
      (phase : r.phase = .acquiring ∨ ∃ deadline, r.phase = .pausing deadline) :
      Step timing r (r.stop timing)
  | stopAccepting (cancelled : r.cancelled = true) (phase : r.phase = .accepting) :
      Step timing r (r.release.stop timing)
  | finish (place : Nat) (connection : Connection κ) (result : TaskEnd)
      (allowed : r.phase.allows result = true)
      (found : r.connections[place]? = some ⟨connection, .served⟩) :
      Step timing r ((r.put place connection (.ended result)).record [.ended place result])
  | join (place : Nat) (connection : Connection κ) (result : TaskEnd)
      (joins : r.phase.joins = true)
      (found : r.connections[place]? = some ⟨connection, .ended result⟩) :
      Step timing r ((r.put place connection (.joined result)).record [.joined place])
  | expire (deadline : Nat) (phase : r.phase = .draining deadline) (due : deadline ≤ r.now) :
      Step timing r ({ r with phase := .aborting }.record [.expired])
  | close (phase : (∃ deadline, r.phase = .draining deadline) ∨ r.phase = .aborting)
      (drained : r.isDrained = true) : Step timing r (r.returning none)

/-- An accept that ends leads to one of the steps, whatever it came to. -/
theorem step_afterAccept (phase : r.phase = .accepting) (result : AcceptEnd κ) :
    Step timing r (r.afterAccept timing result) := by
  cases result with
  | connected connection =>
      have step : Step timing r _ := .connected connection phase
      simpa [afterAccept, record, release] using step
  | failed error =>
      cases concerns : error.concernsConnection with
      | true =>
          have step : Step timing r _ := .connectionError error phase concerns
          simpa [afterAccept, record, release, concerns] using step
      | false =>
          have step : Step timing r _ := .listenerError error phase concerns
          simpa [afterAccept, record, release, concerns] using step

/-- Every move is one of these steps. -/
theorem step_of_move {move : Move κ} (moved : r.step? timing move = some next) :
    Step timing r next := by
  cases move with
  | cancel =>
      cases moved
      exact .cancel
  | pass nanos =>
      cases moved
      exact .pass nanos
  | acquire =>
      simp only [step?] at moved
      split at moved
      · next same =>
          cases moved
          exact .refused (by rw [same]) _
      · next free phase same =>
          cases moved
          exact .acquire free phase same
      · cases moved
  | accept result =>
      simp only [step?] at moved
      split at moved
      · next phase =>
          cases moved
          exact step_afterAccept phase result
      · cases moved
  | resume =>
      simp only [step?] at moved
      split at moved
      · next deadline phase =>
          obtain ⟨due, rfl⟩ := by simpa using moved
          exact .resume deadline phase due
      · cases moved
  | next =>
      simp only [step?] at moved
      split at moved
      · next phase =>
          cases moved
          exact .next phase
      · cases moved
  | stop =>
      simp only [step?] at moved
      split at moved
      · next cancelled phase =>
          cases moved
          exact .stop cancelled (.inl phase)
      · next cancelled phase =>
          cases moved
          exact .stopAccepting cancelled phase
      · next deadline cancelled phase =>
          cases moved
          exact .stop cancelled (.inr ⟨deadline, phase⟩)
      · cases moved
  | finish place result =>
      simp only [step?] at moved
      split at moved
      · next connection allowed found =>
          cases moved
          exact .finish place connection result allowed found
      · cases moved
  | join place =>
      simp only [step?] at moved
      split at moved
      · next connection result joins found =>
          cases moved
          exact .join place connection result joins found
      · cases moved
  | expire =>
      simp only [step?] at moved
      split at moved
      · next deadline phase =>
          obtain ⟨⟨due, -⟩, rfl⟩ := by simpa using moved
          exact .expire deadline phase due
      · cases moved
  | close =>
      simp only [step?] at moved
      split at moved
      · next deadline phase drained =>
          cases moved
          exact .close (.inl ⟨deadline, phase⟩) drained
      · next phase drained =>
          cases moved
          exact .close (.inr phase) drained
      · cases moved

/-! ### Permits

The loop holds one permit while it waits for a connection, and gives it back whatever comes of that.  So the
free permits and the one it holds are always as many as there were at the start. -/

/-- How many permits the loop holds. -/
def held : Phase → Nat
  | .accepting => 1
  | _ => 0

/-- No permit gets lost, and more can always be had. -/
structure Permitted (maxAccepts : Nat) (r : Run κ) : Prop where
  opened : r.semaphore.closed = false
  whole : r.semaphore.free + held r.phase = AcceptLoop.permits maxAccepts

/-- At the start, all permits are free. -/
theorem Permitted.start (maxAccepts : Nat) : Permitted maxAccepts (start maxAccepts : Run κ) :=
  ⟨rfl, rfl⟩

/-- No move loses a permit or makes a new one, and none closes the semaphore. -/
theorem Permitted.step (h : Permitted maxAccepts r) (step : Step timing r next) :
    Permitted maxAccepts next := by
  obtain ⟨opened, whole⟩ := h
  cases step with
  | cancel => exact ⟨opened, whole⟩
  | pass nanos => exact ⟨opened, whole⟩
  | refused closed failure =>
      rw [opened] at closed
      cases closed
  | acquire free phase permits =>
      rw [phase, permits] at whole
      exact ⟨rfl, whole⟩
  | connected connection phase =>
      rw [phase] at whole
      exact ⟨opened, whole⟩
  | connectionError error phase passing =>
      rw [phase] at whole
      exact ⟨opened, whole⟩
  | listenerError error phase lasting =>
      rw [phase] at whole
      exact ⟨opened, whole⟩
  | resume deadline phase due =>
      rw [phase] at whole
      exact ⟨opened, whole⟩
  | next phase =>
      rw [phase] at whole
      exact ⟨opened, whole⟩
  | stop cancelled phase =>
      have none : held r.phase = 0 := by
        rcases phase with phase | ⟨deadline, phase⟩ <;> rw [phase] <;> rfl
      rw [none] at whole
      exact ⟨opened, whole⟩
  | stopAccepting cancelled phase =>
      rw [phase] at whole
      exact ⟨opened, whole⟩
  | finish place connection result allowed found => exact ⟨opened, whole⟩
  | join place connection result joins found => exact ⟨opened, whole⟩
  | expire deadline phase due =>
      rw [phase] at whole
      exact ⟨opened, whole⟩
  | close phase drained =>
      have none : held r.phase = 0 := by
        rcases phase with ⟨deadline, phase⟩ | phase <;> rw [phase] <;> rfl
      rw [none] at whole
      exact ⟨opened, whole⟩

/-! ### Time

The events of a trace carry the times at which they happened.  They happen at the time that the clock shows,
and only the passing of time changes the clock. -/

/-- Time does not run back. -/
structure Clocked (r : Run κ) : Prop where
  inOrder : (r.trace.map Prod.fst).Pairwise (· ≤ ·)
  past : ∀ x ∈ r.trace, x.1 ≤ r.now

/-- Whatever happens in a step happens now. -/
theorem trace_step (step : Step timing r next) :
    ∃ events : List (Event κ), next.trace = r.trace ++ events.map (r.now, ·) ∧
      r.now ≤ next.now := by
  cases step with
  | cancel => exact ⟨[], (List.append_nil _).symm, Nat.le_refl _⟩
  | pass nanos => exact ⟨[], (List.append_nil _).symm, Nat.le_add_right ..⟩
  | refused closed failure => exact ⟨_, rfl, Nat.le_refl _⟩
  | acquire free phase permits => exact ⟨_, rfl, Nat.le_refl _⟩
  | connected connection phase =>
      exact ⟨[.yielded (.connected connection), .counted .connectionAccepted,
        .handed r.connections.length connection], rfl, Nat.le_refl _⟩
  | connectionError error phase passing =>
      exact ⟨[.yielded (.failed error)], rfl, Nat.le_refl _⟩
  | listenerError error phase lasting =>
      exact ⟨[.yielded (.failed error), .paused], rfl, Nat.le_refl _⟩
  | resume deadline phase due => exact ⟨_, rfl, Nat.le_refl _⟩
  | next phase => exact ⟨[], (List.append_nil _).symm, Nat.le_refl _⟩
  | stop cancelled phase => exact ⟨_, rfl, Nat.le_refl _⟩
  | stopAccepting cancelled phase => exact ⟨_, rfl, Nat.le_refl _⟩
  | finish place connection result allowed found => exact ⟨_, rfl, Nat.le_refl _⟩
  | join place connection result joins found => exact ⟨_, rfl, Nat.le_refl _⟩
  | expire deadline phase due => exact ⟨_, rfl, Nat.le_refl _⟩
  | close phase drained => exact ⟨_, rfl, Nat.le_refl _⟩

/-- Nothing has happened before the start. -/
theorem Clocked.start (maxAccepts : Nat) : Clocked (start maxAccepts : Run κ) :=
  ⟨.nil, by simp [Run.start]⟩

/-- No move turns the clock back, so what is told later happened later. -/
theorem Clocked.step (h : Clocked r) (step : Step timing r next) : Clocked next := by
  obtain ⟨events, trace, later⟩ := trace_step step
  have stamps : (events.map (r.now, ·)).map Prod.fst = List.replicate events.length r.now := by
    rw [List.map_map]
    exact List.map_const' ..
  constructor
  · rw [trace, List.map_append, stamps, List.pairwise_append]
    refine ⟨h.inOrder, List.pairwise_replicate.mpr (.inr (Nat.le_refl _)), ?_⟩
    intro early old late recent
    obtain ⟨x, member, rfl⟩ := List.mem_map.mp old
    rw [List.eq_of_mem_replicate recent]
    exact h.past x member
  · intro x member
    rw [trace] at member
    rcases List.mem_append.mp member with old | recent
    · exact Nat.le_trans (h.past x old) later
    · obtain ⟨event, -, rfl⟩ := List.mem_map.mp recent
      exact later

/-! ### Connections and their tasks

Each connection that an accept yields gets its place, its task and its count.  What the trace tells about the
place is what the stage of the task says. -/

/-- Another stage does not change whose task it is. -/
theorem map_connection_put {place : Nat} {connection : Connection κ} {stage : Stage}
    (found : r.connections[place]? = some ⟨connection, stage⟩) (other : Stage) :
    (r.put place connection other).connections.map (·.connection) =
      r.connections.map (·.connection) := by
  refine List.ext_getElem? fun i => ?_
  rw [put, List.getElem?_map, List.getElem?_map, List.getElem?_set]
  split
  · next same =>
      subst same
      rw [found, if_pos (List.getElem?_eq_some_iff.mp found).1]
      rfl
  · rfl

/-- Every connection that an accept yielded has its task and is counted. -/
structure Placed (r : Run κ) : Prop where
  handed : r.connections.map (·.connection) = accepted (yields r.trace)
  counted : r.counted = (accepted (yields r.trace)).map fun _ => .connectionAccepted

namespace Placed

/-- Without an accept there are neither connections nor tasks. -/
theorem start (maxAccepts : Nat) : Placed (start maxAccepts : Run κ) := ⟨rfl, rfl⟩

/-- Events that neither yield a connection nor count anything change nothing. -/
theorem quiet (h : Placed r)
    (same : next.connections.map (·.connection) = r.connections.map (·.connection))
    {events : List (Nat × Event κ)} (trace : next.trace = r.trace ++ events)
    (noConnection : accepted (yields events) = [])
    (noCount : ∀ x ∈ events, ∀ event, x.2 ≠ .counted event) : Placed next := by
  have results : accepted (yields next.trace) = accepted (yields r.trace) := by
    rw [trace, yields_append, accepted_append, noConnection, List.append_nil]
  have events : next.counted = r.counted := by
    rw [Run.counted, trace, List.filterMap_append]
    refine (congrArg _ (List.filterMap_eq_nil_iff.mpr ?_)).trans (List.append_nil _)
    rintro ⟨moment, event⟩ member
    cases event with
    | counted event => exact absurd rfl (noCount _ member event)
    | _ => rfl
  exact ⟨by rw [same, results, h.handed], by rw [events, results, h.counted]⟩

/-- A connection that is accepted gets its task at once, and keeps it. -/
theorem step (h : Placed r) (step : Step timing r next) : Placed next := by
  cases step with
  | cancel => exact ⟨h.handed, h.counted⟩
  | pass nanos => exact ⟨h.handed, h.counted⟩
  | refused closed failure => exact h.quiet rfl rfl rfl (by simp)
  | acquire free phase permits => exact h.quiet rfl rfl rfl (by simp)
  | connected connection phase =>
      obtain ⟨handed, counted⟩ := h
      constructor
      · simp only [List.map_append, yields_append, accepted_append, handed]
        rfl
      · simp only [Run.counted, List.filterMap_append, yields_append, accepted_append] at counted ⊢
        rw [counted, List.map_append]
        rfl
  | connectionError error phase passing => exact h.quiet rfl rfl rfl (by simp)
  | listenerError error phase lasting => exact h.quiet rfl rfl rfl (by simp)
  | resume deadline phase due => exact h.quiet rfl rfl rfl (by simp)
  | next phase => exact ⟨h.handed, h.counted⟩
  | stop cancelled phase => exact h.quiet rfl rfl rfl (by simp)
  | stopAccepting cancelled phase => exact h.quiet rfl rfl rfl (by simp)
  | finish place connection result allowed found =>
      exact h.quiet (map_connection_put found _) rfl rfl (by simp)
  | join place connection result joins found =>
      exact h.quiet (map_connection_put found _) rfl rfl (by simp)
  | expire deadline phase due => exact h.quiet rfl rfl rfl (by simp)
  | close phase drained => exact h.quiet rfl rfl rfl (by simp)

end Placed

/-- The trace tells the same of every task as its stage. -/
def Told (r : Run κ) : Prop :=
  ∀ place, ownEvents place r.trace = (r.connections[place]?).elim [] (Task.tale place)

namespace Told

/-- There is no task to tell about at the start. -/
theorem start (maxAccepts : Nat) : Told (start maxAccepts : Run κ) := fun _ => rfl

/-- Events that tell nothing of a task leave what is told as it is. -/
theorem quiet (h : Told r) (same : next.connections = r.connections)
    {events : List (Nat × Event κ)} (trace : next.trace = r.trace ++ events)
    (quiet : ∀ place, ownEvents place events = []) : Told next := by
  intro place
  rw [trace, ownEvents_append, quiet, List.append_nil, same]
  exact h place

/-- A task whose stage changes is told of, and no other. -/
theorem put (h : Told r) {place : Nat} {connection : Connection κ} {stage other : Stage}
    {event : Event κ} (found : r.connections[place]? = some ⟨connection, stage⟩)
    (own : event.place? = some place)
    (grows : Task.tale place ⟨connection, other⟩ = Task.tale place ⟨connection, stage⟩ ++ [event]) :
    Told ((r.put place connection other).record [event]) := by
  intro i
  have before := h i
  simp only [record, Run.put, ownEvents_append, before, List.getElem?_set]
  by_cases here : place = i
  · subst here
    obtain ⟨bound, same⟩ := List.getElem?_eq_some_iff.mp found
    simp [ownEvents, own, bound, same, grows]
  · simp [ownEvents, own, here]

/-- A move that changes the stage of a task tells of it. -/
theorem step (h : Told r) (step : Step timing r next) : Told next := by
  cases step with
  | cancel => exact h
  | pass nanos => exact h
  | refused closed failure => exact h.quiet rfl rfl fun _ => rfl
  | acquire free phase permits => exact h.quiet rfl rfl fun _ => rfl
  | connected connection phase =>
      intro place
      have before := h place
      simp only [ownEvents_append, before]
      rcases Nat.lt_trichotomy place r.connections.length with lt | rfl | gt
      · rw [List.getElem?_append_left lt]
        simp [ownEvents, Event.place?, Nat.ne_of_gt lt]
      · simp [ownEvents, Event.place?, Task.tale]
      · have none : (r.connections ++ [⟨connection, .served⟩])[place]? = none := by
          simp only [List.getElem?_eq_none_iff, List.length_append, List.length_singleton]
          omega
        simp [none, ownEvents, Event.place?, Nat.ne_of_lt gt, Nat.le_of_lt gt]
  | connectionError error phase passing => exact h.quiet rfl rfl fun _ => rfl
  | listenerError error phase lasting => exact h.quiet rfl rfl fun _ => rfl
  | resume deadline phase due => exact h.quiet rfl rfl fun _ => rfl
  | next phase => exact h
  | stop cancelled phase => exact h.quiet rfl rfl fun _ => rfl
  | stopAccepting cancelled phase => exact h.quiet rfl rfl fun _ => rfl
  | finish place connection result allowed found => exact h.put found rfl rfl
  | join place connection result joins found => exact h.put found rfl rfl
  | expire deadline phase due => exact h.quiet rfl rfl fun _ => rfl
  | close phase drained => exact h.quiet rfl rfl fun _ => rfl

end Told

end Run

end Http.AcceptLoop

end Intake
