/-
Module: Intake.Proofs.Schedule.Growth
Purpose: The interval of a target is a function of what has happened to this target.
Main exports: Schedule.Effect.bounds_cases, Schedule.Effect.backoff_cases, Schedule.Effect.phase_cases,
  Schedule.Follows, Schedule.follows_after, Schedule.settle_after, Schedule.exists_handsOut_between,
  Schedule.backoff_follows_history

Growth steps count from the registration or the last reset.  Whether a fire may still be settled is decided
by the last of all occurrences that move the target.  Each effect of an operation keeps both.
-/
import Mathlib.Data.List.Induction
import Intake.Proofs.Schedule.Effects

namespace Intake

namespace Schedule

variable {δ : Type u} {s : Scheduler δ} {key : String} {o : Occurrence δ} {e : Entry δ}
  {past : List (Occurrence δ)} {before after : Option (Entry δ)}

/-! ### What an effect does to each part of an entry

Bounds, backoff and phase of an entry are changed by different occurrences, so each of them is followed on its
own. -/

/-- The bounds of a target are those of its registration, and stay. -/
theorem Effect.bounds_cases (effect : Effect key o before (some e)) :
    (o.registers key = true ∧ ∃ least greatest descriptor,
      o.operation = .register key least greatest descriptor ∧
        e.bounds = Backoff.clampBounds least greatest) ∨
    (o.registers key = false ∧ ∃ old, before = some old ∧ e.bounds = old.bounds) := by
  cases effect with
  | registered least greatest descriptor =>
      exact .inl ⟨beq_self_eq_true key, least, greatest, descriptor, rfl, rfl⟩
  | scheduled old start => exact .inr ⟨rfl, old, rfl, rfl⟩
  | handedOut old now due member => exact .inr ⟨rfl, old, rfl, rfl⟩
  | grown old => exact .inr ⟨rfl, old, rfl, old.grow_bounds⟩
  | reset old => exact .inr ⟨rfl, old, rfl, old.reset_bounds⟩
  | settled old productive _ => exact .inr ⟨rfl, old, rfl, old.settled_bounds productive⟩
  | quiet _ _ quiet => exact .inr ⟨quiet.1, e, rfl, rfl⟩

/-- The backoff of a target starts over, or takes one step, or stays. -/
theorem Effect.backoff_cases (effect : Effect key o before (some e)) :
    (o.startsOver key = true ∧ e.backoff = (e.bounds.1, 0)) ∨
    (o.startsOver key = false ∧ ∃ old, before = some old ∧ e.bounds = old.bounds ∧
      ((o.grows key = true ∧ e.backoff = old.grow.backoff) ∨
        (o.grows key = false ∧ e.backoff = old.backoff))) := by
  have own : (key == key) = true := beq_self_eq_true key
  cases effect with
  | registered least greatest descriptor =>
      refine .inl ⟨?_, rfl⟩
      rw [Occurrence.startsOver, Occurrence.registers, own, Bool.true_or]
  | scheduled old start => exact .inr ⟨rfl, old, rfl, rfl, .inr ⟨rfl, rfl⟩⟩
  | handedOut old now due member => exact .inr ⟨rfl, old, rfl, rfl, .inr ⟨rfl, rfl⟩⟩
  | grown old => exact .inr ⟨rfl, old, rfl, old.grow_bounds, .inl ⟨own, rfl⟩⟩
  | reset old =>
      refine .inl ⟨own, ?_⟩
      rw [Entry.reset_backoff, Entry.reset_bounds]
  | settled old productive _ =>
      cases productive with
      | true =>
          refine .inl ⟨own, ?_⟩
          rw [Entry.settled_backoff, if_pos rfl, Entry.reset_backoff, Entry.settled_bounds]
      | false =>
          refine .inr ⟨rfl, old, rfl, old.settled_bounds false, .inl ⟨own, ?_⟩⟩
          rw [Entry.settled_backoff, if_neg Bool.false_ne_true]
  | quiet _ _ quiet =>
      obtain ⟨registers, -, -, -, resets, grows⟩ := quiet
      refine .inr ⟨?_, e, rfl, rfl, .inr ⟨grows, rfl⟩⟩
      rw [Occurrence.startsOver, registers, resets, Bool.or_self]

/-- A target becomes due by being handed out, and nothing else that moves it leaves it due. -/
theorem Effect.phase_cases (effect : Effect key o before (some e)) :
    (o.moves key = true ∧ (e.phase = .due ↔ o.handsOut key = true)) ∨
    (o.moves key = false ∧ ∃ old, before = some old ∧ e.phase = old.phase) := by
  cases effect with
  | registered least greatest descriptor => exact .inl (by simp [Occurrence.moves])
  | scheduled old start => exact .inl (by simp [Occurrence.moves])
  | handedOut old now due member =>
      have out : Occurrence.handsOut key ⟨.drain now, .drained due⟩ = true := by
        simpa using member
      refine .inl ⟨?_, iff_of_true rfl out⟩
      rw [Occurrence.moves, out, Bool.or_true, Bool.true_or]
  | grown old => exact .inr ⟨rfl, old, rfl, old.grow_phase⟩
  | reset old => exact .inr ⟨rfl, old, rfl, old.reset_phase⟩
  | settled old productive _ => exact .inl (by simp [Occurrence.moves])
  | quiet _ _ quiet =>
      obtain ⟨registers, schedules, handsOut, settles, -, -⟩ := quiet
      refine .inr ⟨?_, e, rfl, rfl⟩
      rw [Occurrence.moves, registers, schedules, handsOut, settles]
      rfl

/-! ### Entries and the past

What has happened to a target decides its entry: the registration its bounds, the growth steps since the last
reset its interval, and the last drain or settlement whether it is out. -/

/-- An entry is what the past of its target makes of it. -/
structure Follows (past : List (Occurrence δ)) (key : String) (e : Entry δ) : Prop where
  registered : ∃ least greatest descriptor,
    registrationOf? key past = some (.register key least greatest descriptor) ∧
      e.bounds = Backoff.clampBounds least greatest
  backoff : e.backoff = Backoff.grown e.bounds.1 e.bounds.2 (growthsOf key past)
  due : e.phase = .due ↔ isOut key past = true

/-- What follows the past before an occurrence follows the past after it. -/
theorem Follows.step (effect : Effect key o before after)
    (h : ∀ e, before = some e → Follows past key e) :
    ∀ e, after = some e → Follows (past ++ [o]) key e := by
  rintro e rfl
  constructor
  · rw [registrationOf?_concat]
    rcases effect.bounds_cases with ⟨registers, least, greatest, descriptor, operation, bounds⟩ |
      ⟨registers, old, before, bounds⟩
    · rw [if_pos registers, operation]
      exact ⟨least, greatest, descriptor, rfl, bounds⟩
    · rw [registers, bounds]
      exact (h old before).registered
  · rw [growthsOf_concat]
    rcases effect.backoff_cases with ⟨starts, backoff⟩ | ⟨starts, old, before, bounds, change⟩
    · rw [if_pos starts, backoff, Backoff.grown_zero]
    · have known := (h old before).backoff
      rw [starts, if_neg Bool.false_ne_true, bounds]
      rcases change with ⟨grows, backoff⟩ | ⟨grows, backoff⟩
      · rw [grows, if_pos rfl, backoff, Entry.grow_backoff, known, Backoff.grown_succ]
      · rw [grows, if_neg Bool.false_ne_true, backoff, known, Nat.add_zero]
  · rw [isOut_concat]
    rcases effect.phase_cases with ⟨moves, due⟩ | ⟨moves, old, before, phase⟩
    · rw [if_pos moves, due]
    · rw [moves, if_neg Bool.false_ne_true, phase]
      exact (h old before).due

/-- Every entry follows the past of its target. -/
theorem follows_after (operations : List (Operation δ)) :
    ∀ e, Scheduler.entry? ((Scheduler.empty : Scheduler δ).after operations) key = some e →
      Follows ((Scheduler.empty : Scheduler δ).occurrences operations) key e := by
  induction operations using List.reverseRecOn with
  | nil =>
      intro e found
      simp [Scheduler.entry?, Scheduler.empty] at found
  | append_singleton operations last ih =>
      rw [Scheduler.occurrences_concat, Scheduler.after_concat]
      exact Follows.step (effect_apply (Scheduler.consistent_after operations) key last) ih

/-- Nothing that keeps the backoff of a target changes it. -/
theorem Effect.backoff_eq (effect : Effect key o before after)
    (keeps : o.operation.KeepsBackoff key) : after.map Entry.backoff = before.map Entry.backoff := by
  cases effect with
  | registered _ _ _ => exact absurd rfl keeps
  | unregistered _ => exact absurd rfl keeps
  | cleared _ => exact absurd keeps id
  | scheduled old start => rfl
  | handedOut old now due member => rfl
  | grown _ => exact absurd rfl keeps
  | reset _ => exact absurd rfl keeps
  | settled _ _ _ => exact absurd rfl keeps
  | quiet _ _ _ => rfl

/-! ### One settlement for each fire

A target is out from the drain that returns it to the first settlement.  So of the settlements of one fire
only the first is accepted. -/

/-- A target comes to be out only by a drain. -/
theorem exists_handsOut_of_isOut_append {later : List (Occurrence δ)}
    (settled : isOut key past = false) (out : isOut key (past ++ later) = true) :
    ∃ o ∈ later, o.handsOut key = true := by
  induction later using List.reverseRecOn with
  | nil =>
      rw [List.append_nil, settled] at out
      cases out
  | append_singleton later last ih =>
      rw [← List.append_assoc, isOut_concat] at out
      split at out
      · exact ⟨last, List.mem_append_right later (List.mem_singleton_self last), out⟩
      · obtain ⟨o, member, handsOut⟩ := ih out
        exact ⟨o, List.mem_append_left _ member, handsOut⟩

/-- The answer to settling a target, which changes nothing unless the target is out. -/
theorem settle_after (operations : List (Operation δ))
    (found : Scheduler.entry? ((Scheduler.empty : Scheduler δ).after operations) key = some e)
    (productive : Bool) :
    let s := (Scheduler.empty : Scheduler δ).after operations
    let past := (Scheduler.empty : Scheduler δ).occurrences operations
    (s.apply (.settle key productive)).1 = .settled (isOut key past) ∧
      (isOut key past = false → (s.apply (.settle key productive)).2 = s) := by
  intro s past
  have due : e.phase = .due ↔ isOut key past = true := (follows_after operations e found).due
  rw [apply_settle found]
  by_cases out : isOut key past = true
  · rw [if_pos (due.mpr out), out]
    exact ⟨rfl, fun settled => by cases settled⟩
  · rw [if_neg (mt due.mp out), Bool.eq_false_iff.mpr out]
    exact ⟨rfl, fun _ => rfl⟩

/-- A target whose settlement is accepted is registered and out. -/
theorem isOut_of_settled (operations : List (Operation δ)) (productive : Bool)
    (accepted : (((Scheduler.empty : Scheduler δ).after operations).apply
      (.settle key productive)).1 = .settled true) :
    isOut key ((Scheduler.empty : Scheduler δ).occurrences operations) = true := by
  cases found : Scheduler.entry? ((Scheduler.empty : Scheduler δ).after operations) key with
  | none => simp [Scheduler.apply, Scheduler.settle, found] at accepted
  | some e =>
      rw [(settle_after operations found productive).1] at accepted
      injection accepted

/-- Between two settlements of a target that are accepted a drain returns it. -/
theorem exists_handsOut_between (operations between : List (Operation δ)) (first second : Bool) :
    let s := (Scheduler.empty : Scheduler δ).after operations
    let t := (s.apply (.settle key first)).2
    (s.apply (.settle key first)).1 = .settled true →
      ((t.after between).apply (.settle key second)).1 = .settled true →
        ∃ o ∈ t.occurrences between, o.handsOut key = true := by
  intro s t acceptedFirst acceptedSecond
  have reached : (Scheduler.empty : Scheduler δ).after (operations ++ [.settle key first]) = t :=
    Scheduler.after_concat _ operations _
  have accepted : (((Scheduler.empty : Scheduler δ).after
      ((operations ++ [.settle key first]) ++ between)).apply (.settle key second)).1
        = .settled true := by
    rw [Scheduler.after_append, reached]
    exact acceptedSecond
  have settled : isOut key ((Scheduler.empty : Scheduler δ).occurrences
      (operations ++ [.settle key first])) = false := by
    have moves : Occurrence.moves (δ := δ) key ⟨.settle key first, .settled true⟩ = true := by
      simp [Occurrence.moves]
    rw [Scheduler.occurrences_concat, acceptedFirst, isOut_concat, if_pos moves]
    rfl
  have out := isOut_of_settled ((operations ++ [.settle key first]) ++ between) second accepted
  rw [Scheduler.occurrences_append, reached] at out
  exact exists_handsOut_of_isOut_append settled out

/-- The interval and the number of attempts of a target are those that its growth steps since its
registration or last reset lead to from the least interval.  Settling is accepted exactly if a drain was
the last to move the target, and is otherwise without effect; so each fire counts once.  Scheduling,
draining and whatever concerns another target leave the backoff as it is. -/
theorem backoff_follows_history (operations : List (Operation δ)) (key : String) :
    let s := (Scheduler.empty : Scheduler δ).after operations
    let past := (Scheduler.empty : Scheduler δ).occurrences operations
    (∀ e, s.entry? key = some e →
      (∃ least greatest descriptor,
        registrationOf? key past = some (.register key least greatest descriptor) ∧
          (e.least, e.greatest) = Backoff.clampBounds least greatest) ∧
      (e.current, e.attempts) = Backoff.grown e.least e.greatest (growthsOf key past) ∧
      ∀ productive, (s.apply (.settle key productive)).1 = .settled (isOut key past) ∧
        (isOut key past = false → (s.apply (.settle key productive)).2 = s)) ∧
    (∀ between first second,
      (s.apply (.settle key first)).1 = .settled true →
      (((s.apply (.settle key first)).2.after between).apply (.settle key second)).1 =
        .settled true →
      ∃ o ∈ (s.apply (.settle key first)).2.occurrences between, o.handsOut key = true) ∧
    ∀ operation : Operation δ, operation.KeepsBackoff key →
      (Scheduler.entry? (s.apply operation).2 key).map (fun e => (e.current, e.attempts)) =
        (s.entry? key).map fun e => (e.current, e.attempts) := by
  intro s past
  refine ⟨?_, exists_handsOut_between operations, ?_⟩
  · intro e found
    have follows := follows_after operations e found
    exact ⟨follows.registered, follows.backoff, settle_after operations found⟩
  · intro operation keeps
    exact (effect_apply (Scheduler.consistent_after operations) key operation).backoff_eq keeps

end Schedule

end Intake
