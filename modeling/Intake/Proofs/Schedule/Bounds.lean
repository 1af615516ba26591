/-
Module: Intake.Proofs.Schedule.Bounds
Purpose: Intervals stay within their bounds, grow, and reach the greatest one for good.
Main exports: Schedule.Entry.Climbs, Schedule.climbs_after, Schedule.Scheduler.entry?_grownBy,
  Schedule.interval_bounded_and_convergent
-/
import Mathlib.Logic.Function.Iterate
import Intake.Proofs.Schedule.Climb
import Intake.Proofs.Schedule.Growth

namespace Intake

namespace Duration

/-- The greater of two spans is not below the second one. -/
theorem le_max_right (a b : Duration) : b ≤ max a b := by
  show b ≤ if a ≤ b then b else a
  split
  · exact Nat.le_refl b.nanos
  · next above => exact Nat.le_of_not_le above

/-- Of two spans in range, the greater one is in range. -/
theorem InRange.max {a b : Duration} (ha : a.InRange) (hb : b.InRange) : (max a b).InRange := by
  show (if a ≤ b then b else a).InRange
  split
  · exact hb
  · exact ha

end Duration

namespace Schedule

open Backoff

variable {δ : Type u} {s : Scheduler δ} {key : String} {e : Entry δ}

/-- Bounds that were put in order are those of an interval. -/
theorem bounded_clampBounds {least greatest : Duration} (leastInRange : least.InRange)
    (greatestInRange : greatest.InRange) :
    Bounded (clampBounds least greatest).1 (clampBounds least greatest).2 := by
  have second : Backoff.floor.InRange := by decide
  exact ⟨Duration.le_max_right least _, Duration.le_max_right greatest _,
    greatestInRange.max (leastInRange.max second)⟩

namespace Entry

/-- An entry whose bounds are those of an interval, and whose interval is one that growth steps from the
least one lead to. -/
structure Climbs (e : Entry δ) : Prop where
  bounded : Bounded e.least e.greatest
  grows : ∃ steps, e.backoff = grown e.least e.greatest steps

namespace Climbs

/-- Where an entry stands on its way to the greatest interval. -/
theorem stage (h : e.Climbs) : Stage e.least e.greatest e.backoff := by
  obtain ⟨steps, grows⟩ := h.grows
  rw [grows]
  exact stage_grown h.bounded steps

/-- Growth never shortens an interval. -/
theorem le_grow (h : e.Climbs) : e.current ≤ e.grow.current := by
  rw [← backoff_fst, ← backoff_fst, grow_backoff]
  exact h.stage.le_next h.bounded

/-- The seconds of a growth step are a span of time unless they reach the upper bound. -/
theorem isSome_ofSeconds? (h : e.Climbs)
    (isFinite : (nextSeconds e.least e.attempts).isFinite = true)
    (below : Binary64.le e.greatest.toSeconds (nextSeconds e.least e.attempts) = false) :
    (Duration.ofSeconds? (nextSeconds e.least e.attempts)).isSome = true := by
  rw [← backoff_snd] at isFinite below ⊢
  exact h.stage.isSome_ofSeconds? h.bounded below isFinite

/-- At the greatest interval a growth step changes nothing at all. -/
theorem grow_eq (h : e.Climbs) (met : e.current = e.greatest) : e.grow = e := by
  rw [grow]
  exact congrArg e.adjust (h.stage.next_eq h.bounded met)

/-- Growth steps in a row add up, and leave the bounds alone. -/
theorem backoff_iterate (h : e.backoff = grown e.least e.greatest n) (steps : Nat) :
    (Entry.grow^[steps] e).bounds = e.bounds ∧
      (Entry.grow^[steps] e).backoff = grown e.least e.greatest (n + steps) := by
  induction steps with
  | zero => exact ⟨rfl, h⟩
  | succ steps ih =>
      obtain ⟨bounds, backoff⟩ := ih
      rw [Function.iterate_succ_apply', grow_bounds, grow_backoff, bounds, backoff]
      exact ⟨rfl, (grown_succ _ _ _).symm⟩

/-- After 80 growth steps the interval is the greatest one. -/
theorem current_iterate (h : e.Climbs) : (Entry.grow^[80] e).current = e.greatest := by
  obtain ⟨steps, grows⟩ := h.grows
  have reached := grown_eq_greatest h.bounded (Nat.le_add_left 80 steps)
  rw [← backoff_fst, (backoff_iterate grows 80).2]
  exact reached

/-- An entry goes on climbing after any number of them. -/
theorem iterate (h : e.Climbs) (steps : Nat) : (Entry.grow^[steps] e).Climbs := by
  obtain ⟨n, grows⟩ := h.grows
  obtain ⟨bounds, backoff⟩ := backoff_iterate grows steps
  obtain ⟨least, greatest⟩ := Prod.mk.inj bounds
  constructor
  · rw [least, greatest]
    exact h.bounded
  · rw [least, greatest]
    exact ⟨n + steps, backoff⟩

end Climbs

end Entry

/-- Every target climbs. -/
theorem climbs_after {operations : List (Operation δ)}
    (inRange : ∀ operation ∈ operations, operation.InRange)
    (found : Scheduler.entry? ((Scheduler.empty : Scheduler δ).after operations) key = some e) :
    e.Climbs := by
  have follows := follows_after operations e found
  obtain ⟨least, greatest, descriptor, registered, bounds⟩ := follows.registered
  have ranges := inRange _ (mem_of_registrationOf? registered)
  have ordered := bounded_clampBounds ranges.1 ranges.2
  rw [← bounds] at ordered
  exact ⟨ordered, _, follows.backoff⟩

/-- Growth steps in a row are growth steps of the entry. -/
theorem Scheduler.entry?_grownBy (found : s.entry? key = some e) (steps : Nat) :
    Scheduler.entry? (s.grownBy key steps) key = some (Entry.grow^[steps] e) := by
  induction steps with
  | zero => exact found
  | succ steps ih =>
      rw [grownBy, List.replicate_succ', after_concat, ← grownBy, Function.iterate_succ_apply']
      simp only [apply, grow, ih]
      rw [entry?_put, if_pos rfl]

/-- Whatever has happened, an interval lies within its bounds, and these above a second.  A growth step never
shortens it and never asks for a span of time that does not exist.  The attempts stay below 80.  After at
most 80 growth steps the interval is the greatest one, and once it is, growth steps change nothing. -/
theorem interval_bounded_and_convergent (operations : List (Operation δ)) (key : String)
    (inRange : ∀ operation ∈ operations, operation.InRange) :
    let s := (Scheduler.empty : Scheduler δ).after operations
    ∀ e, s.entry? key = some e →
      (.ofSecs 1 ≤ e.least ∧ e.least ≤ e.current ∧ e.current ≤ e.greatest) ∧
      (∃ longer, (s.apply (.grow key)).1 = .interval longer ∧ e.current ≤ longer) ∧
      ((nextSeconds e.least e.attempts).isFinite = true →
        Binary64.le e.greatest.toSeconds (nextSeconds e.least e.attempts) = false →
        (Duration.ofSeconds? (nextSeconds e.least e.attempts)).isSome = true) ∧
      e.attempts ≤ 79 ∧
      (∃ steps ≤ 80, (s.grownBy key steps).current? key = some e.greatest) ∧
      ∀ steps more, (s.grownBy key steps).current? key = some e.greatest →
        Scheduler.entry? (s.grownBy key (steps + more)) key =
          Scheduler.entry? (s.grownBy key steps) key := by
  intro s e found
  have climbs : e.Climbs := climbs_after inRange found
  obtain ⟨low, high⟩ := climbs.stage.within climbs.bounded
  have longer : (s.apply (.grow key)).1 = .interval e.grow.current := by
    simp only [Scheduler.apply, Scheduler.grow, found]
  refine ⟨⟨climbs.bounded.floor, low, high⟩, ⟨e.grow.current, longer, climbs.le_grow⟩,
    climbs.isSome_ofSeconds?, climbs.stage.attempts_le, ⟨80, le_rfl, ?_⟩, ?_⟩
  · rw [Scheduler.current?, Scheduler.entry?_grownBy found, Option.map_some,
      climbs.current_iterate]
  · intro steps more met
    rw [Scheduler.current?, Scheduler.entry?_grownBy found, Option.map_some,
      Option.some.injEq] at met
    have still : (Entry.grow^[steps] e).grow = Entry.grow^[steps] e := by
      refine (climbs.iterate steps).grow_eq ?_
      obtain ⟨n, grows⟩ := climbs.grows
      obtain ⟨-, greatest⟩ := Prod.mk.inj (Entry.Climbs.backoff_iterate grows steps).1
      rw [met, greatest]
    rw [Scheduler.entry?_grownBy found, Scheduler.entry?_grownBy found, Nat.add_comm,
      Function.iterate_add_apply, Function.iterate_fixed still]

/-- The widest bounds that there are, after one growth step from the floor. -/
theorem widest_bounds_converge :
    let widest : Duration := ⟨18446744073709551615_999999999⟩
    let operations : List (Operation Unit) := [.register "a" .zero widest (), .grow "a"]
    let s := (Scheduler.empty : Scheduler Unit).after operations
    let e : Entry Unit := ⟨"a", .ofSecs 1, widest, ⟨1_750000000⟩, 1, (), .idle⟩
    (∀ operation ∈ operations, operation.InRange) ∧ s.entry? "a" = some e ∧
      e.current ≤ widest ∧ e.attempts ≤ 79 ∧
      ∃ steps ≤ 80, (s.grownBy "a" steps).current? "a" = some widest := by
  intro widest operations s e
  have inRange : ∀ operation ∈ operations, operation.InRange := by
    have bounds : Duration.zero.InRange ∧ widest.InRange := by decide +kernel
    intro operation member
    rcases List.mem_cons.mp member with rfl | last
    · exact bounds
    · rw [List.mem_singleton.mp last]
      trivial
  have found : s.entry? "a" = some e := by decide +kernel
  obtain ⟨⟨-, -, high⟩, -, -, attempts, reached, -⟩ :=
    interval_bounded_and_convergent operations "a" inRange e found
  exact ⟨inRange, found, high, attempts, reached⟩

end Schedule

end Intake
