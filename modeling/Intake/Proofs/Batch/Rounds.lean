/-
Module: Intake.Proofs.Batch.Rounds
Purpose: Whatever the polls find and whenever a run is cancelled, the run accounts for all of it.
Main exports: Batch.Working, Batch.Stands, Batch.Accounts, Batch.Accounts.step, Batch.Accounts.run,
  Batch.Run.polls_run, Batch.Run.exists_polls, Batch.Run.exists_over, Batch.Run.run_accounts_for_every_poll

Where the loop stands decides what is owed: between batches all items found so far were handled, and while a
batch is on its way, all but its own.  The batch that is on its way keeps what any batch keeps on its own.
-/
import Mathlib.Data.List.Basic
import Intake.Proofs.Batch.Dispatching
import Intake.Proofs.Observe.ItemCounts

namespace Intake

namespace Batch

variable {ι : Type u} {source : Source ι} {trace events : List (Event ι)} {poll : Nat}

/-! ### Tallies

The counters of a run and the metrics grow by one for every poll that completes.  Both are compared with a
count over the polls, so that neither is trusted to say how many there were. -/

/-- The four ways in which a poll ends. -/
theorem cases_pollEnd {motive : PollEnd ι → Prop} (empty : motive (.found []))
    (productive : ∀ item items, motive (.found (item :: items)))
    (failed : ∀ cause, motive (.failed cause))
    (crashed : motive .crashed) (result : PollEnd ι) : motive result := by
  cases result with
  | found items =>
      cases items with
      | nil => exact empty
      | cons item items => exact productive item items
  | failed cause => exact failed cause
  | crashed => exact crashed

/-- The tally of polls that ended in given ways. -/
def Summary.ofEnds (ends : List (Nat × PollEnd ι)) : Summary where
  rounds := ends.countP (·.2.isProductive)
  emptyPolls := ends.countP (·.2.isEmpty)
  failedPolls := ends.countP (·.2.isFailed)

/-- A poll that completed is in exactly one of the three. -/
theorem Summary.total_ofEnds (ends : List (Nat × PollEnd ι)) :
    (ofEnds ends).rounds + (ofEnds ends).emptyPolls + (ofEnds ends).failedPolls =
      ends.countP (·.2.isCompleted) := by
  induction ends with
  | nil => rfl
  | cons first rest ih =>
      simp only [ofEnds, List.countP_cons] at ih ⊢
      have one : (if first.2.isProductive then 1 else 0) + (if first.2.isEmpty then 1 else 0) +
          (if first.2.isFailed then 1 else 0) = if first.2.isCompleted then 1 else 0 := by
        obtain ⟨poll, result⟩ := first
        cases result using cases_pollEnd <;> rfl
      omega

/-- The counters after one poll. -/
theorem recordAll_end (result : PollEnd ι) (m : Metrics) (now : Nat) :
    m.recordAll now result.event?.toList =
      { m with
        pollsProductive := m.pollsProductive + if result.isProductive then 1 else 0
        pollsEmpty := m.pollsEmpty + if result.isEmpty then 1 else 0
        pollsFailed := m.pollsFailed + if result.isFailed then 1 else 0 } := by
  cases result using cases_pollEnd <;> rfl

/-- The counters grow by the tally. -/
theorem recordAll_ends (ends : List (Nat × PollEnd ι)) (m : Metrics) (now : Nat) :
    m.recordAll now (ends.filterMap (·.2.event?)) =
      { m with
        pollsProductive := m.pollsProductive + (Summary.ofEnds ends).rounds
        pollsEmpty := m.pollsEmpty + (Summary.ofEnds ends).emptyPolls
        pollsFailed := m.pollsFailed + (Summary.ofEnds ends).failedPolls } := by
  rw [List.filterMap_eq_flatMap_toList]
  induction ends generalizing m with
  | nil => rfl
  | cons first rest ih =>
      rw [List.flatMap_cons, Metrics.recordAll_append, recordAll_end, ih]
      simp only [Summary.ofEnds, List.countP_cons, Nat.add_assoc, Nat.add_comm]

/-! ### Reading traces

What a run has done is read off its trace: the ends of its polls, and for each poll what was done about its
items.  Each reading is a filter, so a trace that is continued is read piece by piece. -/

/-- A poll ended in a given way when the trace says so. -/
theorem mem_pollEnds {result : PollEnd ι} :
    (poll, result) ∈ pollEnds trace ↔ .polled poll result ∈ trace := by
  rw [pollEnds, List.mem_filterMap]
  constructor
  · rintro ⟨event, member, same⟩
    cases event with
    | polled poll' result' =>
        cases same
        exact member
    | _ => cases same
  · exact fun member => ⟨_, member, rfl⟩

/-- What was done about the items of a poll is read piece by piece. -/
theorem batchTrace_append (poll : Nat) (trace events : List (Event ι)) :
    batchTrace poll (trace ++ events) = batchTrace poll trace ++ batchTrace poll events :=
  List.filterMap_append

/-- Where no task is told of, nothing was done about any item. -/
theorem batchTrace_eq_nil (none : ∀ place event, .task poll place event ∉ trace) :
    batchTrace poll trace = [] := by
  apply List.filterMap_eq_nil_iff.mpr
  intro event member
  cases event with
  | task other place event =>
      refine if_neg ?_
      rintro rfl
      exact none place event member
  | _ => rfl

/-- The events of a batch, as events of its run. -/
def asTasks (poll : Nat) (events : List (Nat × TaskEvent ι)) : List (Event ι) :=
  events.map fun (place, event) => .task poll place event

/-- The events of a batch are its own and no other's. -/
theorem batchTrace_asTasks (poll other : Nat) (events : List (Nat × TaskEvent ι)) :
    batchTrace other (asTasks poll events) = if poll = other then events else [] := by
  rw [batchTrace, asTasks, List.filterMap_map]
  split
  · next same => simp [same]
  · next differs => simp [differs]

/-- What is left to say about other polls and batches stays as it is. -/
theorem Settled.append (h : Settled source trace)
    (noPoll : ∀ poll items, .polled poll (.found items) ∉ events)
    (noTask : ∀ poll place event, .task poll place event ∉ events) :
    Settled source (trace ++ events) := by
  intro poll items member
  rw [batchTrace_append, batchTrace_eq_nil (noTask poll), List.append_nil]
  rcases List.mem_append.mp member with old | new
  · exact h poll items old
  · exact absurd new (noPoll poll items)

/-- Before every event, all has been done that must be. -/
def InOrder (source : Source ι) (trace : List (Event ι)) : Prop :=
  ∀ before event after, trace = before ++ event :: after → Due source before event

namespace InOrder

/-- A trace stays in order if all has been done before each event that continues it. -/
theorem append (h : InOrder source trace)
    (due : ∀ first event rest, events = first ++ event :: rest → Due source (trace ++ first) event) :
    InOrder source (trace ++ events) := by
  intro before event after same
  rcases List.append_eq_append_iff.mp same with ⟨first, rfl, rest⟩ | ⟨rest, rfl, tail⟩
  · exact due first event after rest
  · cases rest with
    | nil =>
        have now := due [] event after tail.symm
        rwa [List.append_nil, List.append_nil] at now
    | cons event' rest =>
        obtain ⟨rfl, -⟩ := List.cons.inj tail
        exact h before event rest rfl

/-- One event continues a trace in order if all has been done before it. -/
theorem concat {event : Event ι} (h : InOrder source trace) (due : Due source trace event) :
    InOrder source (trace ++ [event]) := by
  refine h.append fun first event' rest same => ?_
  obtain ⟨rfl, rfl, -⟩ : first = [] ∧ event' = event ∧ rest = [] := by
    simpa [List.singleton_eq_append_iff] using same
  rwa [List.append_nil]

/-- Only items that were found have tasks. -/
theorem found (h : InOrder source trace) {place : Nat} {event : TaskEvent ι}
    (member : .task poll place event ∈ trace) : ∃ items, .polled poll (.found items) ∈ trace := by
  obtain ⟨before, after, rfl⟩ := List.append_of_mem member
  obtain ⟨items, early⟩ := h before _ after rfl
  exact ⟨items, List.mem_append_left _ early⟩

end InOrder

/-! ### Counting polls

Only the end of a poll changes what was counted.  All other moves leave the three readings as they are, which
is what `Silent` says of their events. -/

variable {r next : Run ι}

/-- The tally, the counted events and the polls in the trace are those of the source. -/
structure Counts (source : Source ι) (r : Run ι) : Prop where
  ends : pollEnds r.trace = (List.range r.polls).map fun n => (n, source.poll n)
  tally : r.summary = .ofEnds (pollEnds r.trace)
  counted : r.counted = (pollEnds r.trace).filterMap (·.2.event?)

/-- What follows the end of a poll at once. -/
def aftermath (result : PollEnd ι) : Event ι :=
  match result.event? with
  | some event => .counted event
  | none => .released

/-- A poll that ends is told with what follows it, and nothing else is. -/
theorem Run.trace_afterPoll (r : Run ι) (result : PollEnd ι) :
    (r.afterPoll result).trace = r.trace ++ [.polled r.polls result, aftermath result] := by
  cases result using cases_pollEnd with
  | empty => exact List.append_assoc ..
  | productive item items => exact List.append_assoc ..
  | failed cause => exact List.append_assoc ..
  | crashed => exact List.append_assoc ..

namespace Counts

/-- Before the first poll there is nothing to count. -/
theorem start (source : Source ι) : Counts source .start := ⟨rfl, rfl, rfl⟩

/-- The polls of the trace are the first ones of the source, and end as the source says. -/
theorem polled_iff (h : Counts source r) {result : PollEnd ι} :
    .polled poll result ∈ r.trace ↔ poll < r.polls ∧ source.poll poll = result := by
  rw [← mem_pollEnds, h.ends, List.mem_map]
  simp only [List.mem_range, Prod.mk.injEq]
  constructor
  · rintro ⟨n, bound, rfl, same⟩
    exact ⟨bound, same⟩
  · rintro ⟨bound, same⟩
    exact ⟨poll, bound, rfl, same⟩

/-- Events that end no poll and count nothing. -/
def Silent (events : List (Event ι)) : Prop :=
  (∀ poll result, .polled poll result ∉ events) ∧ ∀ event, .counted event ∉ events

/-- A move that ends no poll and counts nothing leaves the counts as they are. -/
theorem append (h : Counts source r) (polls : next.polls = r.polls)
    (summary : next.summary = r.summary) (whole : next.trace = r.trace ++ events)
    (silent : Silent events) : Counts source next := by
  have ends : pollEnds next.trace = pollEnds r.trace := by
    rw [whole, pollEnds, List.filterMap_append]
    refine (congrArg _ (List.filterMap_eq_nil_iff.mpr ?_)).trans (List.append_nil _)
    intro event member
    cases event with
    | polled poll result => exact absurd member (silent.1 poll result)
    | _ => rfl
  have counted : next.counted = r.counted := by
    rw [Run.counted, whole, List.filterMap_append]
    refine (congrArg _ (List.filterMap_eq_nil_iff.mpr ?_)).trans (List.append_nil _)
    intro event member
    cases event with
    | counted event => exact absurd member (silent.2 event)
    | _ => rfl
  refine ⟨?_, ?_, ?_⟩
  · rw [ends, polls, h.ends]
  · rw [ends, summary, h.tally]
  · rw [ends, counted, h.counted]

/-- Each poll is counted once. -/
theorem afterPoll (h : Counts source r) : Counts source (r.afterPoll (source.poll r.polls)) := by
  obtain ⟨result, found⟩ : ∃ result, source.poll r.polls = result := ⟨_, rfl⟩
  have ends : pollEnds (r.afterPoll result).trace = pollEnds r.trace ++ [(r.polls, result)] := by
    rw [Run.trace_afterPoll, pollEnds, List.filterMap_append]
    cases result using cases_pollEnd <;> rfl
  have polls : (r.afterPoll result).polls = r.polls + 1 := by
    cases result using cases_pollEnd <;> rfl
  have summary : (r.afterPoll result).summary = .ofEnds (pollEnds r.trace ++ [(r.polls, result)]) := by
    rw [Summary.ofEnds, List.countP_append, List.countP_append, List.countP_append]
    cases result using cases_pollEnd <;> simp only [Run.afterPoll, Run.record, h.tally] <;> rfl
  have counted : (r.afterPoll result).counted = r.counted ++ result.event?.toList := by
    rw [Run.counted, Run.trace_afterPoll, List.filterMap_append]
    cases result using cases_pollEnd <;> rfl
  rw [found]
  refine ⟨?_, ?_, ?_⟩
  · rw [ends, polls, h.ends, List.range_succ, List.map_append, List.map_singleton, found]
  · rw [ends, summary]
  · rw [ends, counted, h.counted, List.filterMap_append]
    cases result using cases_pollEnd <;> rfl

end Counts

/-! ### A batch on its way

While the items of a poll are handled, the trace of that poll keeps what a batch keeps when it is on its own.
The traces of all earlier polls are complete and do not change any more. -/

/-- A batch keeps what any batch keeps, and the items of the other polls were handled. -/
structure Working (source : Source ι) (trace : List (Event ι)) (poll : Nat) (items : List ι)
    (batch : Dispatch ι) : Prop where
  found : .polled poll (.found items) ∈ trace
  tells : batch.Tells source.key (source.handle poll) items (batchTrace poll trace)
  inTurn : batch.InTurn (batchTrace poll trace)
  others : ∀ other rest, .polled other (.found rest) ∈ trace → (other = poll ∧ rest = items) ∨
    (other ≠ poll ∧ Handled source.key (source.handle other) rest (batchTrace other trace))

namespace Working

variable {items : List ι} {batch after : Dispatch ι} {told : List (Nat × TaskEvent ι)}

/-- A poll that finds items begins a batch about which nothing has been done. -/
theorem create (items : List ι) (settled : Settled source trace)
    (fresh : ∀ result, .polled poll result ∉ trace) (untouched : batchTrace poll trace = [])
    (event : Metrics.Event) :
    Working source (trace ++ [.polled poll (.found items), .counted event]) poll items
      (.create items) := by
  have same (other : Nat) : batchTrace other
      (trace ++ [.polled poll (.found items), .counted event]) = batchTrace other trace := by
    rw [batchTrace_append]
    exact List.append_nil _
  refine ⟨?_, ?_, ?_, ?_⟩
  · exact List.mem_append_right trace List.mem_cons_self
  · rw [same, untouched]
    exact .create ..
  · rw [same, untouched]
    exact .create ..
  · intro other rest member
    rcases List.mem_append.mp member with old | new
    · refine .inr ⟨?_, ?_⟩
      · rintro rfl
        exact fresh _ old
      · rw [same]
        exact settled other rest old
    · obtain ⟨rfl, rfl⟩ : other = poll ∧ rest = items := by simpa using new
      exact .inl ⟨rfl, rfl⟩

/-- A move of the batch is none of the other polls' business. -/
theorem go {move : Dispatch.Move} (h : Working source trace poll items batch)
    (step : batch.step? source.key (source.handle poll) move = some (after, told)) :
    Working source (trace ++ asTasks poll told) poll items after := by
  obtain ⟨place, own, rfl, effect⟩ := Dispatch.effect_step step
  have mine : batchTrace poll (trace ++ asTasks poll (own.map (place, ·))) =
      batchTrace poll trace ++ own.map (place, ·) := by
    rw [batchTrace_append, batchTrace_asTasks, if_pos rfl]
  refine ⟨?_, ?_, ?_, ?_⟩
  · exact List.mem_append_left _ h.found
  · rw [mine]
    exact h.tells.effect effect
  · rw [mine]
    exact h.inTurn.effect h.tells effect
  · intro other rest member
    rcases List.mem_append.mp member with old | new
    · refine (h.others other rest old).imp_right fun ⟨differs, handled⟩ => ⟨differs, ?_⟩
      rwa [batchTrace_append, batchTrace_asTasks, if_neg differs.symm, List.append_nil]
    · obtain ⟨x, -, same⟩ := List.mem_map.mp new
      cases same

/-- Once it is done, nothing is owed. -/
theorem settled (h : Working source trace poll items batch) (done : batch.isDone = true) :
    Settled source trace := by
  intro other rest member
  rcases h.others other rest member with ⟨rfl, rfl⟩ | ⟨-, handled⟩
  · exact Dispatch.handled_of_done h.tells h.inTurn done
  · exact handled

end Working

/-! ### Where the loop stands

The invariant of the loop has one clause for each of its phases.  A move takes the clause of its phase to the
clause of the next one, so the proof that a step keeps it has one lemma for each kind of move. -/

/-- What holds of the trace, by where the loop is. -/
def Stands (source : Source ι) (r : Run ι) : Prop :=
  match r.phase with
  | .dispatching poll batch => .released ∉ r.trace ∧ batch.isDone = false ∧
    ∃ items, Working source r.trace poll items batch
  | .polling => .begun r.polls ∈ r.trace ∧ .released ∉ r.trace ∧ Settled source r.trace
  | .stopped => Settled source r.trace ∧ ∃ before, r.trace = before ++ [.released] ∧ .released ∉ before
  | .aborted => Settled source r.trace ∧ ∃ before, r.trace = before ++ [.released] ∧ .released ∉ before
  | _ => .released ∉ r.trace ∧ Settled source r.trace

/-- What every run keeps, from one move to the next. -/
structure Accounts (source : Source ι) (r : Run ι) : Prop extends Counts source r where
  inOrder : InOrder source r.trace
  stands : Stands source r

namespace Accounts

/-- A run begins with nothing polled, nothing handled and nothing released. -/
theorem start (source : Source ι) : Accounts source .start where
  toCounts := .start source
  inOrder := by simp [Run.start, InOrder]
  stands := by simp [Run.start, Stands, Settled]

/-- A token that is cancelled changes nothing that was done. -/
theorem cancel (h : Accounts source r) : Accounts source { r with cancelled := true } :=
  ⟨⟨h.ends, h.tally, h.counted⟩, h.inOrder, h.stands⟩

/-- A pause that ends does not either. -/
theorem wake (h : Accounts source r) (phase : r.phase = .sleeping) :
    Accounts source { r with phase := .ready } := by
  have stands := h.stands
  rw [Stands, phase] at stands
  exact ⟨⟨h.ends, h.tally, h.counted⟩, h.inOrder, stands⟩

/-- A poll begins after all items found so far were handled. -/
theorem begin (h : Accounts source r) (phase : r.phase = .ready) :
    Accounts source ({ r with phase := .polling }.record [.begun r.polls]) := by
  have stands := h.stands
  rw [Stands, phase] at stands
  obtain ⟨unreleased, settled⟩ := stands
  refine ⟨h.toCounts.append rfl rfl rfl (by simp [Counts.Silent]), h.inOrder.concat settled, ?_⟩
  refine ⟨List.mem_concat_self, ?_, settled.append (by simp) (by simp)⟩
  simpa [Run.record] using unreleased

/-- The loop stops between two batches only. -/
theorem stop (h : Accounts source r) (unreleased : .released ∉ r.trace)
    (settled : Settled source r.trace) : Accounts source r.stop where
  toCounts := h.toCounts.append rfl rfl rfl (by simp [Counts.Silent])
  inOrder := h.inOrder.concat settled
  stands := ⟨settled.append (by simp) (by simp), r.trace, rfl, unreleased⟩

/-- A poll that ends begins a batch if it found items.  Otherwise the loop stands between two batches as
before, or has crashed. -/
theorem afterPoll (h : Accounts source r) (phase : r.phase = .polling) :
    Accounts source (r.afterPoll (source.poll r.polls)) := by
  have stands := h.stands
  rw [Stands, phase] at stands
  obtain ⟨begun, unreleased, settled⟩ := stands
  have fresh (result : PollEnd ι) : .polled r.polls result ∉ r.trace := fun member =>
    Nat.lt_irrefl _ (h.polled_iff.mp member).1
  have untouched : batchTrace r.polls r.trace = [] := by
    refine batchTrace_eq_nil fun place event member => ?_
    obtain ⟨items, found⟩ := h.inOrder.found member
    exact fresh _ found
  have crashes : Settled source (r.trace ++ [.polled r.polls .crashed]) :=
    settled.append (by simp) (by simp)
  refine ⟨h.toCounts.afterPoll, ?_, ?_⟩
  · have polled (result : PollEnd ι) : InOrder source (r.trace ++ [.polled r.polls result]) :=
      h.inOrder.concat begun
    rw [Run.trace_afterPoll, List.append_cons]
    cases source.poll r.polls using cases_pollEnd with
    | empty => exact (polled _).concat ⟨r.polls, _, List.mem_concat_self, rfl⟩
    | productive item items => exact (polled _).concat ⟨r.polls, _, List.mem_concat_self, rfl⟩
    | failed cause => exact (polled _).concat ⟨r.polls, _, List.mem_concat_self, rfl⟩
    | crashed => exact (polled _).concat crashes
  · have trace := Run.trace_afterPoll r (source.poll r.polls)
    cases result : source.poll r.polls using cases_pollEnd with
    | empty =>
        rw [result] at trace
        -- A batch without items is done as soon as it is created.
        have handled := (Working.create [] settled fresh untouched .pollEmpty).settled rfl
        refine ⟨?_, trace ▸ handled⟩
        simpa [trace, aftermath, PollEnd.event?] using unreleased
    | productive item items =>
        rw [result] at trace
        have working := Working.create (item :: items) settled fresh untouched .pollProductive
        refine ⟨?_, rfl, item :: items, trace ▸ working⟩
        simpa [trace, aftermath, PollEnd.event?] using unreleased
    | failed cause =>
        rw [result] at trace
        refine ⟨?_, trace ▸ settled.append ?_ ?_⟩
        · simpa [trace, aftermath, PollEnd.event?] using unreleased
        · simp [aftermath, PollEnd.event?]
        · simp [aftermath, PollEnd.event?]
    | crashed =>
        refine ⟨crashes.append (by simp) (by simp), r.trace ++ [.polled r.polls .crashed], rfl, ?_⟩
        simpa using unreleased

/-- A move of the batch keeps the loop with that batch, or leads out of it when the batch is done. -/
theorem batch {batch after : Dispatch ι} {told : List (Nat × TaskEvent ι)} {move : Dispatch.Move}
    (h : Accounts source r) (phase : r.phase = .dispatching poll batch)
    (step : batch.step? source.key (source.handle poll) move = some (after, told)) :
    Accounts source
      ({ r with phase := Run.phaseAfter poll after }.record (asTasks poll told)) := by
  have stands := h.stands
  rw [Stands, phase] at stands
  obtain ⟨unreleased, -, items, working⟩ := stands
  have later := working.go step
  have unreleased' : .released ∉ r.trace ++ asTasks poll told := by
    simpa [asTasks] using unreleased
  refine ⟨h.toCounts.append rfl rfl rfl (by simp [Counts.Silent, asTasks]), ?_, ?_⟩
  · refine h.inOrder.append fun first event rest same => ?_
    have member : event ∈ asTasks poll told := same ▸ List.mem_append_right _ List.mem_cons_self
    obtain ⟨x, -, rfl⟩ := List.mem_map.mp member
    exact ⟨items, List.mem_append_left _ working.found⟩
  · cases done : after.isDone with
    | true =>
        simp only [Stands, Run.phaseAfter, done, Run.record]
        exact ⟨unreleased', later.settled done⟩
    | false =>
        simp only [Stands, Run.phaseAfter, done, Run.record]
        exact ⟨unreleased', done, items, later⟩

/-- Every move keeps it. -/
theorem step {move : Move} (h : Accounts source r) (step : r.step? source move = some next) :
    Accounts source next := by
  cases move with
  | cancel =>
      cases step
      exact h.cancel
  | begin =>
      simp only [Run.step?] at step
      split at step
      · next phase =>
          cases step
          exact h.begin phase
      · cases step
  | poll =>
      simp only [Run.step?] at step
      split at step
      · next phase =>
          cases step
          exact h.afterPoll phase
      · cases step
  | batch move =>
      simp only [Run.step?] at step
      split at step
      · next poll batch phase =>
          obtain ⟨⟨after, told⟩, moved, rfl⟩ := Option.map_eq_some_iff.mp step
          exact h.batch phase moved
      · cases step
  | wake =>
      simp only [Run.step?] at step
      split at step
      · next phase =>
          cases step
          exact h.wake phase
      · cases step
  | stop =>
      have stands := h.stands
      simp only [Run.step?] at step
      split at step
      · next phase =>
          cases step
          rw [Stands, phase] at stands
          exact h.stop stands.1 stands.2
      · next phase =>
          cases step
          rw [Stands, phase] at stands
          exact h.stop stands.2.1 stands.2.2
      · next phase =>
          cases step
          rw [Stands, phase] at stands
          exact h.stop stands.1 stands.2
      · cases step

/-- So does every run. -/
theorem run {moves : List Move} (h : Accounts source r) (run : r.run? source moves = some next) :
    Accounts source next := by
  induction moves generalizing r with
  | nil =>
      cases run
      exact h
  | cons move moves ih =>
      rw [Run.run?, List.foldlM_cons] at run
      obtain ⟨between, first, rest⟩ := Option.bind_eq_some_iff.mp run
      exact ih (h.step first) rest

/-- Once it is over, nothing is left to account for. -/
theorem accounted {moves : List Move} (h : Accounts source r) (polls : r.polls = moves.count .poll)
    (ended : r.isOver = true) : r.Accounted source moves := by
  obtain ⟨settled, released⟩ : Settled source r.trace ∧
      ∃ before, r.trace = before ++ [.released] ∧ .released ∉ before := by
    have stands := h.stands
    rw [Stands] at stands
    rw [Run.isOver] at ended
    cases phase : r.phase with
    | stopped => rwa [phase] at stands
    | aborted => rwa [phase] at stands
    | _ =>
        rw [phase] at ended
        cases ended
  refine ⟨polls, polls ▸ h.ends, ?_, ?_, ?_, ?_, ?_, settled, h.inOrder, released⟩
  · rw [h.tally]
    rfl
  · rw [h.tally]
    rfl
  · rw [h.tally]
    rfl
  · rw [h.tally]
    exact Summary.total_ofEnds _
  · intro m now
    rw [h.counted, h.tally]
    exact recordAll_ends _ m now

end Accounts

/-! ### Every run can go on and can end

A batch that is on its way gets shorter with each of its moves, and at least one of them is possible.  So every loop
that has not ended comes to stand between two batches.  From there it can poll once more, as often as it is asked to,
and once it is cancelled it can stop. -/

namespace Run

variable {moves more : List Move} {move : Move}

/-- One move, and the rest of the moves. -/
theorem run_cons (first : r.step? source move = some next) {last : Run ι}
    (rest : next.run? source moves = some last) : r.run? source (move :: moves) = some last := by
  rw [run?, List.foldlM_cons, first]
  exact rest

/-- Moves one after another. -/
theorem run_append {last : Run ι} (first : r.run? source moves = some next)
    (rest : next.run? source more = some last) : r.run? source (moves ++ more) = some last := by
  rw [run?, List.foldlM_append]
  exact Option.bind_eq_some_iff.mpr ⟨next, first, rest⟩

/-- A move is a poll that comes to its end, or it leaves the number of these polls as it is. -/
theorem polls_step (step : r.step? source move = some next) :
    next.polls = r.polls + [move].count .poll := by
  cases move with
  | cancel =>
      cases step
      rfl
  | poll =>
      simp only [step?] at step
      split at step
      · cases step
        cases source.poll r.polls using cases_pollEnd <;> rfl
      · cases step
  | batch move =>
      simp only [step?] at step
      split at step
      · obtain ⟨_, -, rfl⟩ := Option.map_eq_some_iff.mp step
        rfl
      · cases step
  | _ =>
      simp only [step?] at step
      split at step <;> cases step <;> rfl

/-- A run has as many polls as came to their ends. -/
theorem polls_run (run : r.run? source moves = some next) : next.polls = r.polls + moves.count .poll := by
  induction moves generalizing r with
  | nil =>
      cases run
      rfl
  | cons move moves ih =>
      rw [run?, List.foldlM_cons] at run
      obtain ⟨between, first, rest⟩ := Option.bind_eq_some_iff.mp run
      rw [ih rest, polls_step first, Nat.add_assoc, ← List.count_append]
      rfl

/-- The moves that are left at most before the loop is between two batches. -/
def remaining (r : Run ι) : Nat :=
  match r.phase with
  | .dispatching _ batch => batch.remaining
  | _ => 0

/-- A batch on its way can go on, and then less of it is left. -/
theorem exists_batch_move {batch : Dispatch ι} (h : Accounts source r)
    (phase : r.phase = .dispatching poll batch) :
    ∃ move next, r.step? source (.batch move) = some next ∧ next.remaining < r.remaining ∧
      next.isOver = false := by
  have stands := h.stands
  rw [Stands, phase] at stands
  obtain ⟨-, busy, items, working⟩ := stands
  obtain ⟨move, after, told, moved⟩ := Dispatch.exists_step source.key
    (source.handle poll) working.inTurn busy
  obtain ⟨place, own, -, effect⟩ := Dispatch.effect_step moved
  have fewer : after.remaining < batch.remaining := Dispatch.remaining_effect effect
  have before : r.remaining = batch.remaining := by rw [remaining, phase]
  refine ⟨move, { r with phase := phaseAfter poll after }.record (asTasks poll told), ?_, ?_, ?_⟩
  · simp only [step?, phase, moved]
    rfl
  · rw [before]
    cases done : after.isDone with
    | true => simpa [remaining, record, phaseAfter, done] using Nat.zero_lt_of_lt fewer
    | false => simpa [remaining, record, phaseAfter, done] using fewer
  · cases done : after.isDone <;> simp [isOver, record, phaseAfter, done]

/-- However far a run is, its batch can go on until the loop stands between two batches. -/
theorem exists_between (h : Accounts source r) :
    ∃ more next, Undisturbed more ∧ more.count .poll = 0 ∧ r.run? source more = some next ∧
      next.isOver = r.isOver ∧ ∀ poll batch, next.phase ≠ .dispatching poll batch := by
  induction left : r.remaining using Nat.strong_induction_on generalizing r with
  | h left' ih =>
      subst left
      by_cases under : ∃ poll batch, r.phase = .dispatching poll batch
      · obtain ⟨poll, batch, phase⟩ := under
        obtain ⟨move, after, moved, less, going⟩ := exists_batch_move h phase
        obtain ⟨more, next, calm, none, run, same, between⟩ := ih _ less (h.step moved) rfl
        have looping : r.isOver = false := by rw [isOver, phase]
        refine ⟨.batch move :: more, next, ?_, ?_, run_cons moved run, ?_, between⟩
        · simpa [Undisturbed] using calm
        · rw [List.count_cons_of_ne (by simp), none]
        · rw [same, going, looping]
      · exact ⟨[], r, by simp [Undisturbed], rfl, rfl, rfl, fun poll batch phase =>
          under ⟨poll, batch, phase⟩⟩

/-- A loop that has not ended can begin its next poll. -/
theorem exists_polling (h : Accounts source r) (going : r.isOver = false) :
    ∃ more next, Undisturbed more ∧ more.count .poll = 0 ∧ r.run? source more = some next ∧
      next.phase = .polling := by
  obtain ⟨more, next, calm, none, run, same, between⟩ := exists_between h
  -- Behind the batch, what is left to do before the poll depends on where the loop stands.
  have begins {rest : List Move} {ready : Run ι} (run' : next.run? source rest = some ready)
      (polling : ready.phase = .polling) (quiet : Undisturbed rest) (silent : rest.count .poll = 0) :
      ∃ more next, Undisturbed more ∧ more.count .poll = 0 ∧ r.run? source more = some next ∧
        next.phase = .polling := by
    refine ⟨more ++ rest, ready, ?_, ?_, run_append run run', polling⟩
    · simpa [Undisturbed, calm.1, calm.2] using quiet
    · rw [List.count_append, none, silent]
  let begun : Run ι := ({ next with phase := .polling } : Run ι).record [.begun next.polls]
  cases phase : next.phase with
  | ready =>
      have run' : next.run? source [.begin] = some begun := by simp [run?, step?, phase, begun]
      exact begins run' rfl (by simp [Undisturbed]) rfl
  | polling =>
      have run' : next.run? source [] = some next := rfl
      exact begins run' phase (by simp [Undisturbed]) rfl
  | sleeping =>
      have run' : next.run? source [.wake, .begin] = some begun := by
        simp [run?, step?, phase, begun]
      exact begins run' rfl (by simp [Undisturbed]) rfl
  | dispatching poll batch => exact absurd phase (between poll batch)
  | stopped =>
      rw [going, isOver, phase] at same
      cases same
  | aborted =>
      rw [going, isOver, phase] at same
      cases same

/-- A poll that does not crash does not end the loop. -/
theorem afterPoll_goes_on (r : Run ι) {result : PollEnd ι} (fine : result ≠ .crashed) :
    (r.afterPoll result).isOver = false := by
  cases result using cases_pollEnd with
  | crashed => exact absurd rfl fine
  | _ => rfl

/-- Neither does any number of them. -/
theorem exists_polls (h : Accounts source r) (going : r.isOver = false) (n : Nat)
    (fine : ∀ k < n, source.poll (r.polls + k) ≠ .crashed) :
    ∃ more next, Undisturbed more ∧ more.count .poll = n ∧ r.run? source more = some next ∧
      next.isOver = false := by
  induction n generalizing r with
  | zero => exact ⟨[], r, by simp [Undisturbed], rfl, rfl, going⟩
  | succ n ih =>
      obtain ⟨begins, ready, calm, none, run, polling⟩ := exists_polling h going
      have reached : ready.polls = r.polls := by rw [polls_run run, none, Nat.add_zero]
      have moved : ready.step? source .poll = some (ready.afterPoll (source.poll ready.polls)) := by
        simp only [step?, polling]
      have counted : (ready.afterPoll (source.poll ready.polls)).polls = r.polls + 1 := by
        rw [polls_step moved, reached]
        rfl
      have goes : (ready.afterPoll (source.poll ready.polls)).isOver = false := by
        rw [reached]
        exact afterPoll_goes_on ready (fine 0 (Nat.succ_pos n))
      have later : ∀ k < n, source.poll ((ready.afterPoll (source.poll ready.polls)).polls + k) ≠
          .crashed := by
        intro k less
        rw [counted, Nat.add_assoc, Nat.add_comm 1]
        exact fine (k + 1) (Nat.succ_lt_succ less)
      obtain ⟨more, next, calm', polled, run', going'⟩ := ih ((h.run run).step moved) goes later
      refine ⟨begins ++ .poll :: more, next, ?_, ?_, run_append run (run_cons moved run'), going'⟩
      · simp only [Undisturbed, List.mem_append, List.mem_cons] at calm calm' ⊢
        simp [calm, calm']
      · rw [List.count_append, List.count_cons_self, none, polled, Nat.zero_add]

/-- Between two batches, a cancelled loop can stop. -/
theorem run_stop (phase : r.phase = .ready ∨ r.phase = .polling ∨ r.phase = .sleeping) :
    ∃ last, r.run? source [.cancel, .stop] = some last ∧ last.isOver = true := by
  refine ⟨({ r with cancelled := true } : Run ι).stop, ?_, rfl⟩
  rcases phase with phase | phase | phase <;> simp [run?, step?, phase]

/-- However far a run is, it ends once its batch has gone on and it is cancelled. -/
theorem exists_over (h : Accounts source r) :
    ∃ more last, r.run? source more = some last ∧ last.isOver = true := by
  obtain ⟨more, next, -, -, run, -, between⟩ := exists_between h
  have stops (phase : next.phase = .ready ∨ next.phase = .polling ∨ next.phase = .sleeping) :
      ∃ more last, r.run? source more = some last ∧ last.isOver = true := by
    obtain ⟨last, stopped, ended⟩ := run_stop phase
    exact ⟨_, last, run_append run stopped, ended⟩
  cases phase : next.phase with
  | ready => exact stops (.inl phase)
  | polling => exact stops (.inr (.inl phase))
  | sleeping => exact stops (.inr (.inr phase))
  | dispatching poll batch => exact absurd phase (between poll batch)
  | stopped => exact ⟨more, next, run, by rw [isOver, phase]⟩
  | aborted => exact ⟨more, next, run, by rw [isOver, phase]⟩

/-- Whatever the polls of a source come to, whatever its items do, whenever a run is cancelled and whichever
of two ready branches is taken: a run that has ended is accounted for, with every poll that came to its end, and
every run can go on polling, unless a poll crashes, and can be brought to its end. -/
theorem run_accounts_for_every_poll (source : Source ι) :
    (∀ moves r, start.run? source moves = some r → r.isOver = true → r.Accounted source moves) ∧
    ∀ moves r, start.run? source moves = some r → r.GoesOn source := by
  refine ⟨?_, ?_⟩
  · intro moves r run ended
    have polls : r.polls = moves.count .poll := by
      rw [polls_run run]
      exact Nat.zero_add _
    exact ((Accounts.start source).run run).accounted polls ended
  · intro moves r run
    have accounts := (Accounts.start source).run run
    exact ⟨exists_polls accounts, exists_over accounts⟩

end Run

end Batch

end Intake
