/-
Module: Intake.Proofs.Schedule.Climb
Purpose: Growth steps climb from the least interval to the greatest one and stay there.
Main exports: Backoff.climb, Backoff.interval, Backoff.Stage, Backoff.Stage.next, Backoff.stage_grown,
  Backoff.grown_eq_greatest

Each step multiplies the seconds by more than `1.6`, whatever the roundings do.  This is why intervals
grow although they are rounded to nanoseconds, why a bound that is met by chance is met for good, and why
80 steps lead from one second beyond `2 ^ 64`.
-/
import Intake.Proofs.Time.Seconds
import Intake.Schedule.Backoff

namespace Intake

namespace Backoff

open Binary64 Duration

/-! ### The factors

The powers of the growth factor are computed once, as whole numbers of units.  There are few of them: after 80
steps every interval is at its bound. -/

/-- The units of the factor that a number of growth steps make up. -/
def factorUnits (steps : Nat) : Nat :=
  match Binary64.pow growthFactor steps with
  | .finite _ units => units
  | _ => 0

/-- A power of the factor is exactly so many units. -/
theorem pow_growthFactor : ∀ steps ≤ 80,
    Binary64.pow growthFactor steps = .finite false (factorUnits steps) := by decide +kernel

/-- No step is a factor of one. -/
theorem factorUnits_zero : factorUnits 0 = unitsPerOne := by decide +kernel

/-- Every step grows the factor by `1.7` or more. -/
theorem factorUnits_succ : ∀ steps < 80, 17 * factorUnits steps ≤ 10 * factorUnits (steps + 1) := by
  decide +kernel

/-- After 80 steps the factor is beyond any span in seconds. -/
theorem factorUnits_last : 2 ^ 64 * unitsPerOne ≤ factorUnits 80 := by decide +kernel

/-- No factor is below one. -/
theorem le_factorUnits {steps : Nat} (few : steps ≤ 80) : unitsPerOne ≤ factorUnits steps := by
  induction steps with
  | zero => exact factorUnits_zero.ge
  | succ steps ih =>
      have before := ih (by omega)
      have grows := factorUnits_succ steps (by omega)
      omega

/-! ### The seconds that growth steps lead to

The least interval is multiplied by a power of the factor and rounded.  Rounding loses less than a step gains.
-/

/-- Bounds of an interval as a target has them. -/
structure Bounded (least greatest : Duration) : Prop where
  floor : .ofSecs 1 ≤ least
  ordered : least ≤ greatest
  inRange : greatest.InRange

namespace Bounded

variable {least greatest : Duration}

/-- The upper bound is a second or more, too. -/
theorem floorGreatest (h : Bounded least greatest) : .ofSecs 1 ≤ greatest :=
  Nat.le_trans h.floor h.ordered

/-- The lower bound is in range because the upper one is. -/
theorem inRangeLeast (h : Bounded least greatest) : least.InRange :=
  lt_of_le_of_lt (Nat.div_le_div_right h.ordered) h.inRange

end Bounded

variable {least greatest : Duration} {steps : Nat}

/-- The seconds that growth steps lead to where nothing bounds them, in units. -/
def climb (least : Duration) (steps : Nat) : Nat :=
  roundUnits (least.secondsUnits * factorUnits steps) unitsPerOne

/-- The seconds after a number of steps are a double. -/
theorem representable_climb (least : Duration) (steps : Nat) : Representable (climb least steps) :=
  representable_roundUnits unitsPerOne_pos

/-- Without a step they are those of the least interval. -/
theorem climb_zero (least : Duration) : climb least 0 = least.secondsUnits := by
  rw [climb, factorUnits_zero]
  exact roundUnits_of_representable unitsPerOne_pos (representable_roundUnits Nat.one_pos)

/-- They are never less than one second. -/
theorem le_climb (floor : .ofSecs 1 ≤ least) (few : steps ≤ 80) : unitsPerOne ≤ climb least steps :=
  le_roundUnits unitsPerOne_pos representable_unitsPerOne
    (Nat.mul_le_mul (le_secondsUnits floor) (le_factorUnits few))

/-- Rounded or not, the seconds grow by more than `1.6`. -/
theorem climb_succ (floor : .ofSecs 1 ≤ least) (few : steps < 80) :
    16 * climb least steps ≤ 10 * climb least (steps + 1) := by
  have normal {n : Nat} (bound : n ≤ 80) :
      2 ^ 52 * unitsPerOne ≤ least.secondsUnits * factorUnits n :=
    Nat.mul_le_mul (le_trans (pow_le_unitsPerOne (by decide)) (le_secondsUnits floor))
      (le_factorUnits bound)
  obtain ⟨above, -⟩ := roundUnits_error unitsPerOne_pos (normal few.le)
  obtain ⟨-, below⟩ := roundUnits_error unitsPerOne_pos (normal (n := steps + 1) few)
  rw [← climb] at above below
  have grows : 17 * (least.secondsUnits * factorUnits steps) ≤
      10 * (least.secondsUnits * factorUnits (steps + 1)) := by
    calc 17 * (least.secondsUnits * factorUnits steps)
        = least.secondsUnits * (17 * factorUnits steps) := by ring
      _ ≤ least.secondsUnits * (10 * factorUnits (steps + 1)) :=
        Nat.mul_le_mul_left _ (factorUnits_succ steps few)
      _ = _ := by ring
  refine Nat.le_of_mul_le_mul_right ?_ unitsPerOne_pos
  rw [Nat.mul_assoc, Nat.mul_assoc]
  omega

/-- No span of time has more seconds than 80 growth steps lead to. -/
theorem climb_last (h : Bounded least greatest) : greatest.secondsUnits ≤ climb least 80 := by
  refine le_trans (secondsUnits_le h.inRange) ?_
  refine le_roundUnits unitsPerOne_pos (representable_pow_mul 64) ?_
  calc 2 ^ 64 * unitsPerOne * unitsPerOne = unitsPerOne * (2 ^ 64 * unitsPerOne) := Nat.mul_comm _ _
    _ ≤ least.secondsUnits * factorUnits 80 :=
      Nat.mul_le_mul (le_secondsUnits h.floor) factorUnits_last

/-! ### Intervals

The seconds of a step are rounded to nanoseconds.  An interval compares with a bound as its seconds do, up to
this rounding. -/

/-- The interval after growth steps where nothing bounds it. -/
def interval (least : Duration) : Nat → Duration
  | 0 => least
  | steps + 1 => ⟨roundHalfEven (climb least (steps + 1) * nanosPerSecond) unitsPerOne⟩

/-- The nanoseconds of an interval are those of its seconds, rounded to the nearest. -/
theorem nanos_interval_succ (least : Duration) (steps : Nat) :
    (interval least (steps + 1)).nanos =
      roundHalfEven (climb least (steps + 1) * nanosPerSecond) unitsPerOne := by
  rw [interval]

/-- An interval, nanoseconds and all, is well below the seconds of the next one. -/
theorem interval_mul_le (floor : .ofSecs 1 ≤ least) (few : steps < 80) :
    11 * ((interval least steps).nanos * unitsPerOne) ≤
      10 * (climb least (steps + 1) * nanosPerSecond) := by
  have grows : 16 * (climb least steps * nanosPerSecond) ≤
      10 * (climb least (steps + 1) * nanosPerSecond) := by
    calc 16 * (climb least steps * nanosPerSecond)
        = 16 * climb least steps * nanosPerSecond := (Nat.mul_assoc 16 _ _).symm
      _ ≤ 10 * climb least (steps + 1) * nanosPerSecond :=
        Nat.mul_le_mul_right nanosPerSecond (climb_succ floor few)
      _ = _ := Nat.mul_assoc 10 _ _
  cases steps with
  | zero =>
      obtain ⟨-, below⟩ := secondsUnits_error floor
      rw [climb_zero] at grows
      show 11 * (least.nanos * unitsPerOne) ≤ _
      omega
  | succ steps =>
      obtain ⟨above, -⟩ := roundHalfEven_half (climb least (steps + 1) * nanosPerSecond)
        unitsPerOne_pos
      have start : unitsPerOne * 10 ≤ climb least (steps + 1) * nanosPerSecond :=
        Nat.mul_le_mul (le_climb floor few.le) (by decide)
      rw [nanos_interval_succ]
      omega

/-- Intervals do not get shorter with more steps. -/
theorem interval_le_succ (floor : .ofSecs 1 ≤ least) (few : steps < 80) :
    interval least steps ≤ interval least (steps + 1) := by
  have far := interval_mul_le floor few
  show (interval least steps).nanos ≤ (interval least (steps + 1)).nanos
  rw [nanos_interval_succ]
  refine le_roundHalfEven unitsPerOne_pos ?_
  omega

/-- None of them is shorter than the least one. -/
theorem le_interval (floor : .ofSecs 1 ≤ least) (few : steps ≤ 80) : least ≤ interval least steps := by
  induction steps with
  | zero => exact Nat.le_refl least.nanos
  | succ steps ih => exact Nat.le_trans (ih (by omega)) (interval_le_succ floor few)

/-- An interval whose seconds are below those of a bound is not beyond that bound. -/
theorem interval_le (h : Bounded least greatest)
    (below : steps = 0 ∨ climb least steps < greatest.secondsUnits) :
    interval least steps ≤ greatest := by
  cases steps with
  | zero => exact h.ordered
  | succ steps =>
      rcases below with none | less
      · cases none
      · show (interval least (steps + 1)).nanos ≤ greatest.nanos
        rw [nanos_interval_succ]
        exact roundHalfEven_le_nanos (representable_climb least (steps + 1)) less

/-- Where an interval is the bound itself, the seconds of the next one are not below it. -/
theorem le_climb_of_interval_eq (h : Bounded least greatest) (few : steps < 80)
    (met : interval least steps = greatest) :
    greatest.secondsUnits ≤ climb least (steps + 1) := by
  have far := interval_mul_le h.floor few
  obtain ⟨above, -⟩ := secondsUnits_error h.floorGreatest
  rw [met] at far
  refine Nat.le_of_mul_le_mul_right (c := nanosPerSecond) ?_ (by decide)
  omega

/-! ### One growth step

A step leads to the next interval of the climb if its seconds stay below the upper bound, and to the bound
itself if they do not. -/

/-- The seconds of a step are those of the climb. -/
theorem nextSeconds_eq (h : least.InRange) (few : steps < 80) :
    nextSeconds least steps = ofUnits false (climb least (steps + 1)) := by
  have attempt : min (steps + 1) greatestAttempt = steps + 1 := by
    rw [greatestAttempt, max32]
    omega
  have exponent : min (steps + 1) greatestExponent = steps + 1 := by
    rw [greatestExponent]
    omega
  rw [nextSeconds, attempt, exponent, toSeconds_eq h, pow_growthFactor (steps + 1) few, mul, climb]
  rfl

/-- Where the seconds of a step reach the upper bound, the interval is that bound and the number of
attempts stays. -/
theorem next_of_le (h : Bounded least greatest) (few : steps < 80)
    (reached : greatest.secondsUnits ≤ climb least (steps + 1)) :
    next least greatest steps = (greatest, steps) := by
  have clamped : (!(nextSeconds least steps).isFinite ||
      Binary64.le greatest.toSeconds (nextSeconds least steps)) = true := by
    rw [nextSeconds_eq h.inRangeLeast few, toSeconds_eq h.inRange, ofUnits]
    split
    · have order : signedUnits false greatest.secondsUnits ≤
          signedUnits false (climb least (steps + 1)) := Int.ofNat_le.mpr reached
      rw [Binary64.le, decide_eq_true order, Bool.or_true]
    · rfl
  rw [next, if_pos clamped]

/-- Where they stay below the bound, they are finite. -/
theorem nextSeconds_of_lt (h : Bounded least greatest) (few : steps < 80)
    (below : climb least (steps + 1) < greatest.secondsUnits) :
    nextSeconds least steps = .finite false (climb least (steps + 1)) := by
  have fits := lt_overflowUnits (le_trans below.le (secondsUnits_le h.inRange))
  rw [nextSeconds_eq h.inRangeLeast few, ofUnits, if_pos fits]

/-- Seconds below those of a span are a span themselves. -/
theorem ofSeconds?_of_lt (h : greatest.InRange) {units : Nat} (below : units < greatest.secondsUnits) :
    Duration.ofSeconds? (.finite false units) =
      some ⟨roundHalfEven (units * nanosPerSecond) unitsPerOne⟩ := by
  have power : secondsLimit = 2 ^ 64 := rfl
  have limit : units < secondsLimit * unitsPerOne := by
    rw [power]
    exact lt_of_lt_of_le below (secondsUnits_le h)
  rw [Duration.ofSeconds?, if_neg (by simp), if_pos limit]

/-- Where they do not, the step leads to the next interval. -/
theorem next_of_lt (h : Bounded least greatest) (few : steps < 80)
    (below : climb least (steps + 1) < greatest.secondsUnits) :
    next least greatest steps = (interval least (steps + 1), steps + 1) := by
  have unclamped : (!(nextSeconds least steps).isFinite ||
      Binary64.le greatest.toSeconds (nextSeconds least steps)) = false := by
    have order : ¬ signedUnits false greatest.secondsUnits ≤
        signedUnits false (climb least (steps + 1)) := fun le =>
      absurd (Int.ofNat_le.mp le) (by omega)
    rw [nextSeconds_of_lt h few below, toSeconds_eq h.inRange, Binary64.le, decide_eq_false order]
    rfl
  have attempt : min (steps + 1) greatestAttempt = steps + 1 := by
    rw [greatestAttempt, max32]
    omega
  rw [next, if_neg (Bool.eq_false_iff.mp unclamped), nextSeconds_of_lt h few below,
    ofSeconds?_of_lt h.inRange below, attempt]
  rfl

/-! ### The whole climb

An entry is either on its way or at the greatest interval.  A step leads from one of these places to another,
and at most 80 of them to the top. -/

/-- Where a target stands: on its way from the least interval, or at the greatest one for good. -/
inductive Stage (least greatest : Duration) : Duration × Nat → Prop where
  | climbing (steps : Nat) (few : steps < 80)
      (below : steps = 0 ∨ climb least steps < greatest.secondsUnits) :
      Stage least greatest (interval least steps, steps)
  | settled (steps : Nat) (few : steps < 80)
      (reached : greatest.secondsUnits ≤ climb least (steps + 1)) :
      Stage least greatest (greatest, steps)

namespace Stage

variable {backoff : Duration × Nat}

/-- Every growth step leads from one such place to another. -/
theorem next (h : Bounded least greatest) (stage : Stage least greatest backoff) :
    Stage least greatest (Backoff.next least greatest backoff.2) := by
  cases stage with
  | climbing steps few _ =>
      rcases Nat.lt_or_ge (climb least (steps + 1)) greatest.secondsUnits with below | reached
      · rw [next_of_lt h few below]
        refine .climbing (steps + 1) ?_ (.inr below)
        -- The last step of all would lead beyond every bound.
        rcases Nat.lt_or_ge (steps + 1) 80 with less | last
        · exact less
        · have same : steps + 1 = 80 := by omega
          have beyond := climb_last h
          rw [same] at below
          omega
      · rw [next_of_le h few reached]
        exact .settled steps few reached
  | settled steps few reached =>
      rw [next_of_le h few reached]
      exact .settled steps few reached

/-- No attempt number is above 79. -/
theorem attempts_le (stage : Stage least greatest backoff) : backoff.2 ≤ 79 := by
  cases stage with
  | climbing steps few _ => exact Nat.le_of_lt_succ few
  | settled steps few _ => exact Nat.le_of_lt_succ few

/-- At every place the interval is within its bounds. -/
theorem within (h : Bounded least greatest) (stage : Stage least greatest backoff) :
    least ≤ backoff.1 ∧ backoff.1 ≤ greatest := by
  cases stage with
  | climbing steps few below => exact ⟨le_interval h.floor few.le, interval_le h below⟩
  | settled steps few _ => exact ⟨h.ordered, Nat.le_refl greatest.nanos⟩

/-- A growth step never shortens an interval. -/
theorem le_next (h : Bounded least greatest) (stage : Stage least greatest backoff) :
    backoff.1 ≤ (Backoff.next least greatest backoff.2).1 := by
  cases stage with
  | climbing steps few position =>
      rcases Nat.lt_or_ge (climb least (steps + 1)) greatest.secondsUnits with below | reached
      · rw [next_of_lt h few below]
        exact interval_le_succ h.floor few
      · rw [next_of_le h few reached]
        exact interval_le h position
  | settled steps few reached =>
      rw [next_of_le h few reached]
      exact Nat.le_refl greatest.nanos

/-- At the greatest interval growth steps change nothing, also where it was met by chance. -/
theorem next_eq (h : Bounded least greatest) (stage : Stage least greatest backoff)
    (met : backoff.1 = greatest) : Backoff.next least greatest backoff.2 = backoff := by
  cases stage with
  | climbing steps few _ =>
      rw [next_of_le h few (le_climb_of_interval_eq h few met)]
      exact congrArg (·, steps) met.symm
  | settled steps few reached => exact next_of_le h few reached

/-- The seconds of a growth step are a span of time unless they reach the upper bound. -/
theorem isSome_ofSeconds? (h : Bounded least greatest) (stage : Stage least greatest backoff)
    (below : Binary64.le greatest.toSeconds (nextSeconds least backoff.2) = false)
    (isFinite : (nextSeconds least backoff.2).isFinite = true) :
    (Duration.ofSeconds? (nextSeconds least backoff.2)).isSome = true := by
  have few : backoff.2 < 80 := Nat.lt_succ_of_le stage.attempts_le
  rw [nextSeconds_eq h.inRangeLeast few, ofUnits] at below isFinite ⊢
  split at below
  · next fits =>
      rw [if_pos fits]
      have less : climb least (backoff.2 + 1) < greatest.secondsUnits := by
        rw [toSeconds_eq h.inRange, Binary64.le] at below
        exact Int.ofNat_lt.mp (not_le.mp (of_decide_eq_false below))
      rw [ofSeconds?_of_lt h.inRange less]
      rfl
  · next large =>
      rw [if_neg large] at isFinite
      cases isFinite

end Stage

/-- Growth steps from the least interval. -/
theorem stage_grown (h : Bounded least greatest) (steps : Nat) :
    Stage least greatest (grown least greatest steps) := by
  induction steps with
  | zero => exact .climbing 0 (by decide) (.inl rfl)
  | succ steps ih => exact ih.next h

/-- Until the greatest interval is reached, every growth step counts. -/
theorem grown_attempts (h : Bounded least greatest) (steps : Nat) :
    (grown least greatest steps).1 = greatest ∨ (grown least greatest steps).2 = steps := by
  induction steps with
  | zero => exact .inr rfl
  | succ steps ih =>
      have stage := stage_grown h steps
      rcases ih with met | counted
      · rw [grown_succ, stage.next_eq h met]
        exact .inl met
      · have few : steps < 80 := by
          rw [← counted]
          exact Nat.lt_succ_of_le stage.attempts_le
        rw [grown_succ, counted]
        rcases Nat.lt_or_ge (climb least (steps + 1)) greatest.secondsUnits with below | reached
        · exact .inr (by rw [next_of_lt h few below])
        · exact .inl (by rw [next_of_le h few reached])

/-- From 80 growth steps on the interval is the greatest one. -/
theorem grown_eq_greatest (h : Bounded least greatest) {steps : Nat} (many : 80 ≤ steps) :
    (grown least greatest steps).1 = greatest := by
  rcases grown_attempts h steps with met | counted
  · exact met
  · have few := (stage_grown h steps).attempts_le
    omega

end Backoff

end Intake
