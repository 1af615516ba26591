/-
Module: Intake.Proofs.Time.Steady
Purpose: A span of time that was a number of seconds in double precision stays itself when it passes through
  such a number again.
Main exports: Duration.IsSteady, Duration.isSteady_of_fine, Duration.secondsUnits_of_coarse,
  Duration.isSteady_of_ofSeconds?

Three roundings happen on the way to seconds and one on the way back.  Below `2 ^ 23` seconds doubles are less
than a nanosecond apart, so every span comes back.  From there on a nanosecond is less than half the distance
of two doubles, so the seconds of a span are the double that it was rounded from.
-/
import Intake.Proofs.Number.PlainText

namespace Intake

namespace Duration

open Binary64

variable {d : Duration}

theorem fractionUnits_of_whole (whole : d.subsecondNanos = 0) : d.fractionUnits = 0 := by
  obtain ⟨above, -⟩ := d.fractionUnits_error
  rw [whole, mul_nanosPerSecond] at above
  omega

theorem secondsUnits_of_whole (whole : d.subsecondNanos = 0)
    (exact : Representable (d.wholeSeconds * unitsPerOne)) :
    d.secondsUnits = d.wholeSeconds * unitsPerOne := by
  have same := roundUnits_of_representable Nat.one_pos exact
  rw [Nat.mul_one] at same
  rw [secondsUnits, fractionUnits_of_whole whole, Nat.add_zero, wholeUnits, same, same]

/-- A span that comes back when it passes through its seconds as a double. -/
def IsSteady (d : Duration) : Prop := ofSeconds? d.toSeconds = some d

/-- A span is steady if its seconds are rounded back to its nanoseconds. -/
theorem isSteady_of_secondsUnits (range : d.InRange) (below : d.secondsUnits < secondsLimit * unitsPerOne)
    (back : roundHalfEven (d.secondsUnits * nanosPerSecond) unitsPerOne = d.nanos) : d.IsSteady := by
  rw [IsSteady, toSeconds_eq range, ofSeconds?, if_neg (by simp), if_pos below, back]

/-- Whole seconds that are exact as a double are steady. -/
theorem isSteady_of_whole (range : d.InRange) (whole : d.subsecondNanos = 0)
    (exact : Representable (d.wholeSeconds * unitsPerOne)) : d.IsSteady := by
  have seconds := secondsUnits_of_whole whole exact
  refine isSteady_of_secondsUnits range ?_ ?_
  · rw [seconds]
    exact Nat.mul_lt_mul_of_pos_right range unitsPerOne_pos
  · have moved : d.wholeSeconds * unitsPerOne * nanosPerSecond = d.nanos * unitsPerOne := by
      rw [d.nanos_mul, whole, Nat.zero_mul, Nat.add_zero]
    rw [seconds, moved, roundHalfEven_whole unitsPerOne_pos]

/-- Below `2 ^ 23` seconds doubles are less than a nanosecond apart. -/
theorem isSteady_of_fine (fine : d.wholeSeconds < 2 ^ 23) : d.IsSteady := by
  have small : d.wholeSeconds < 2 ^ 53 := lt_trans fine (by decide)
  have whole := wholeUnits_of_small small
  have less := d.fractionUnits_lt
  have sum : d.wholeUnits + d.fractionUnits < 2 ^ 23 * unitsPerOne := by
    have next : d.wholeSeconds * unitsPerOne + unitsPerOne ≤ 2 ^ 23 * unitsPerOne := by
      rw [← Nat.succ_mul]
      exact Nat.mul_le_mul_right unitsPerOne fine
    omega
  have place : 2 ^ 30 * 2 ^ excessBits (d.wholeUnits + d.fractionUnits) ≤ unitsPerOne := by
    have few : excessBits (d.wholeUnits + d.fractionUnits) ≤ 1044 := by
      refine excessBits_le (lt_of_lt_of_eq sum ?_)
      rw [unitsPerOne_eq, ← Nat.pow_add]
      congr 1
    rw [← Nat.pow_add, unitsPerOne_eq]
    exact Nat.pow_le_pow_right (by decide) (by rw [fractionDigits]; omega)
  obtain ⟨above, below⟩ := roundUnits_half (d.wholeUnits + d.fractionUnits) Nat.one_pos
  rw [Nat.mul_one, Nat.one_mul, Nat.div_one, ← secondsUnits] at above below
  obtain ⟨fractionAbove, fractionBelow⟩ := d.fractionUnits_error
  have part := d.subsecondNanos_mul_le
  have parts := d.nanos_mul
  rw [mul_nanosPerSecond] at parts fractionAbove fractionBelow
  refine isSteady_of_secondsUnits (lt_trans fine (by decide)) ?_ (Nat.le_antisymm ?_ ?_)
  · have room : 2 ^ 24 * unitsPerOne ≤ secondsLimit * unitsPerOne :=
      Nat.mul_le_mul_right unitsPerOne (by decide)
    omega
  · refine roundHalfEven_le_of_lt unitsPerOne_pos ?_
    have twice : (2 * d.nanos + 1) * unitsPerOne = 2 * (d.nanos * unitsPerOne) + unitsPerOne := by ring
    rw [mul_nanosPerSecond]
    omega
  · refine le_roundHalfEven_of_lt unitsPerOne_pos ?_
    rw [mul_nanosPerSecond]
    omega

/-- From `2 ^ 23` seconds on nanoseconds are less than half the distance of doubles apart. -/
theorem secondsUnits_of_coarse {units : Nat} (exact : Representable units)
    (coarse : 2 ^ 23 * unitsPerOne ≤ units) (broken : ¬ unitsPerOne ∣ units)
    (small : d.wholeSeconds < 2 ^ 53)
    (near : roundHalfEven (units * nanosPerSecond) unitsPerOne = d.nanos) : d.secondsUnits = units := by
  have places : 1045 ≤ excessBits units := by
    refine le_excessBits (le_trans (le_of_eq ?_) coarse)
    rw [unitsPerOne_eq, ← Nat.pow_add]
    congr 1
  have place : unitsPerOne ≤ 2 ^ 29 * 2 ^ excessBits units := by
    rw [← Nat.pow_add, unitsPerOne_eq]
    exact Nat.pow_le_pow_right (by decide) (by rw [fractionDigits]; omega)
  -- A power of two of this size would be a whole number of seconds.
  have inside : 2 ^ (52 + excessBits units) < units := by
    refine lt_of_le_of_ne (le_of_excessBits (by omega)) fun same => broken ?_
    rw [← same, unitsPerOne_eq]
    exact Nat.pow_dvd_pow 2 (by rw [fractionDigits]; omega)
  obtain ⟨above, below⟩ := roundHalfEven_half (units * nanosPerSecond) unitsPerOne_pos
  rw [near] at above below
  obtain ⟨fractionAbove, fractionBelow⟩ := d.fractionUnits_error
  have part := d.subsecondNanos_mul_le
  have parts := d.nanos_mul
  have whole := wholeUnits_of_small small
  have one := unitsPerOne_pos
  rw [mul_nanosPerSecond] at parts above below fractionAbove fractionBelow
  rw [secondsUnits]
  refine Nat.le_antisymm ?_ ?_
  · rcases Nat.lt_or_ge units (d.wholeUnits + d.fractionUnits) with more | less
    · refine le_of_eq (roundUnits_of_near Nat.one_pos exact (by omega) ?_)
      omega
    · exact roundUnits_le Nat.one_pos exact (by omega)
  · refine le_roundUnits_of_near Nat.one_pos exact inside ?_
    omega

/-- From `2 ^ 52` seconds on every double is a whole number of seconds. -/
theorem lt_of_not_dvd {units : Nat} (exact : Representable units) (broken : ¬ unitsPerOne ∣ units) :
    units < 2 ^ 52 * unitsPerOne := by
  by_contra large
  have whole : fractionDigits ≤ excessBits units := by
    refine le_excessBits (le_trans (le_of_eq ?_) (Nat.not_lt.mp large))
    rw [Nat.pow_add, unitsPerOne_eq]
  refine broken (dvd_trans ?_ exact)
  rw [unitsPerOne_eq]
  exact Nat.pow_dvd_pow 2 whole

theorem wholeSeconds_lt {k : Nat} (below : d.nanos < k * nanosPerSecond) : d.wholeSeconds < k :=
  (Nat.div_lt_iff_lt_mul (by decide)).mpr below

/-- Whole seconds below the limit are steady if a double holds them. -/
theorem isSteady_ofSecs {seconds : Nat} (range : seconds < secondsLimit)
    (exact : Representable (seconds * unitsPerOne)) : (ofSecs seconds).IsSteady := by
  have whole : (ofSecs seconds).wholeSeconds = seconds := Nat.mul_div_cancel seconds (by decide)
  refine isSteady_of_whole ?_ (Nat.mul_mod_left seconds nanosPerSecond) ?_
  · rwa [InRange, whole]
  · rwa [whole]

/-- A span that a double below the limit is rounded to is steady. -/
theorem isSteady_of_representable {units : Nat} (exact : Representable units)
    (limit : units < secondsLimit * unitsPerOne)
    (near : roundHalfEven (units * nanosPerSecond) unitsPerOne = d.nanos) : d.IsSteady := by
  have least {seconds : Nat} (most : units < seconds * unitsPerOne) :
      d.nanos ≤ seconds * nanosPerSecond := by
    rw [← near]
    refine roundHalfEven_le unitsPerOne_pos ?_
    calc units * nanosPerSecond ≤ seconds * unitsPerOne * nanosPerSecond :=
          Nat.mul_le_mul_right nanosPerSecond most.le
      _ = seconds * nanosPerSecond * unitsPerOne := Nat.mul_right_comm ..
  rcases Nat.lt_or_ge units (2 ^ 23 * unitsPerOne) with fine | coarse
  · rcases (least fine).lt_or_eq with below | full
    · exact isSteady_of_fine (wholeSeconds_lt below)
    · have same : d = ofSecs (2 ^ 23) := by
        rw [ofSecs, ← full]
      rw [same]
      exact isSteady_ofSecs (by decide) (representable_pow_mul 23)
  · by_cases whole : unitsPerOne ∣ units
    · obtain ⟨seconds, split⟩ := whole
      have moved : units * nanosPerSecond = seconds * nanosPerSecond * unitsPerOne := by
        rw [split]
        ring
      have same : d = ofSecs seconds := by
        rw [ofSecs, ← roundHalfEven_whole unitsPerOne_pos (seconds * nanosPerSecond), ← moved, near]
      rw [split, Nat.mul_comm] at exact limit
      rw [same]
      exact isSteady_ofSecs (Nat.lt_of_mul_lt_mul_right limit) exact
    · have small : d.wholeSeconds < 2 ^ 53 :=
        wholeSeconds_lt (lt_of_le_of_lt (least (lt_of_not_dvd exact whole)) (by decide))
      have seconds := secondsUnits_of_coarse exact coarse whole small near
      refine isSteady_of_secondsUnits (lt_trans small (by decide)) ?_ ?_
      · rw [seconds]
        exact limit
      · rw [seconds]
        exact near

/-- A span that was a double once is steady. -/
theorem isSteady_of_ofSeconds? {x : Binary64} (double : x.IsDouble) (span : ofSeconds? x = some d) :
    d.IsSteady := by
  cases double with
  | nan => cases span
  | infinite => cases span
  | @finite negative units exact fits =>
      rw [ofSeconds?] at span
      split at span
      · cases span
      · split at span
        · next limit =>
            refine isSteady_of_representable exact limit ?_
            rw [← Option.some.inj span]
        · cases span

/-- A nanosecond is lost in a span that never was a double. -/
example : ofSeconds? (ofParts (2 ^ 24) 1).toSeconds = some (ofSecs (2 ^ 24)) := by decide +kernel

end Duration

end Intake
