/-
Module: Intake.Proofs.Time.Seconds
Purpose: What becomes of a span of time as a number of seconds in double precision, and back.
Main exports: Duration.secondsUnits, Duration.toSeconds_eq, Duration.secondsUnits_error,
  Duration.roundHalfEven_le_nanos
-/
import Intake.Proofs.Number.Rounding
import Intake.Time.Duration

namespace Intake

namespace Binary64

/-! ### Whole numbers as doubles

Whole numbers of up to 53 binary digits are doubles, and so are all powers of two that matter here. -/

/-- The binary digits of the least positive double behind the binary point. -/
def fractionDigits : Nat := 1074

theorem unitsPerOne_eq : unitsPerOne = 2 ^ fractionDigits := by decide +kernel

theorem overflowUnits_eq : overflowUnits = 2 ^ (1024 + fractionDigits) := by decide +kernel

theorem unitsPerOne_pos : 0 < unitsPerOne := by
  rw [unitsPerOne_eq]
  exact Nat.two_pow_pos fractionDigits

theorem pow_le_unitsPerOne {k : Nat} (h : k ≤ fractionDigits) : 2 ^ k ≤ unitsPerOne := by
  rw [unitsPerOne_eq]
  exact Nat.pow_le_pow_right (by decide) h

theorem lt_overflowUnits {units : Nat} (h : units ≤ 2 ^ 64 * unitsPerOne) : units < overflowUnits := by
  have room : 2 ^ (64 + fractionDigits) < 2 ^ (1024 + fractionDigits) :=
    Nat.pow_lt_pow_right (by decide) (by decide)
  calc units ≤ 2 ^ 64 * unitsPerOne := h
    _ = 2 ^ (64 + fractionDigits) := by rw [unitsPerOne_eq, Nat.pow_add]
    _ < overflowUnits := by rwa [overflowUnits_eq]

theorem representable_mul_unitsPerOne {n : Nat} (h : n < 2 ^ 53) : Representable (n * unitsPerOne) := by
  rw [unitsPerOne_eq]
  exact representable_mul_pow h fractionDigits

theorem representable_pow_mul (k : Nat) : Representable (2 ^ k * unitsPerOne) := by
  have power : 2 ^ k * unitsPerOne = 1 * 2 ^ (k + fractionDigits) := by
    rw [Nat.pow_add, Nat.one_mul, unitsPerOne_eq]
  rw [power]
  exact representable_mul_pow (by decide) _

theorem representable_unitsPerOne : Representable unitsPerOne := by
  have one := representable_mul_unitsPerOne (n := 1) (by decide)
  rwa [Nat.one_mul] at one

/-- From `2 ^ 53` on doubles are at least two apart. -/
theorem two_le_place {units : Nat} (h : 2 ^ 53 * unitsPerOne ≤ units) :
    2 * unitsPerOne ≤ 2 ^ excessBits units := by
  have digits : 1 + fractionDigits ≤ excessBits units := by
    have start : excessBits (2 ^ (52 + (1 + fractionDigits))) = 1 + fractionDigits := by
      refine excessBits_eq le_rfl (Nat.pow_lt_pow_right (by decide) ?_)
      omega
    rw [← start]
    refine excessBits_mono (le_trans (le_of_eq ?_) h)
    rw [unitsPerOne_eq, ← Nat.pow_add]
    congr 1
  calc 2 * unitsPerOne = 2 ^ (1 + fractionDigits) := by rw [unitsPerOne_eq, Nat.pow_add, Nat.pow_one]
    _ ≤ 2 ^ excessBits units := Nat.pow_le_pow_right (by decide) digits

/-- A whole number of at most 65 binary digits as a double. -/
theorem ofNat_eq {n : Nat} (h : n ≤ 2 ^ 64) : ofNat n = .finite false (roundUnits (n * unitsPerOne) 1) := by
  have bound : roundUnits (n * unitsPerOne) 1 ≤ 2 ^ 64 * unitsPerOne := by
    refine roundUnits_le Nat.one_pos (representable_pow_mul 64) ?_
    rw [Nat.mul_one]
    exact Nat.mul_le_mul_right unitsPerOne h
  rw [ofNat, ofRatio, ofUnits, if_pos (lt_overflowUnits bound)]

/-- A whole number of at most 53 binary digits is exact. -/
theorem ofNat_eq_of_lt {n : Nat} (h : n < 2 ^ 53) : ofNat n = .finite false (n * unitsPerOne) := by
  have exact := roundUnits_of_representable Nat.one_pos (representable_mul_unitsPerOne h)
  rw [Nat.mul_one] at exact
  rw [ofNat_eq (by omega), exact]

/-- A sum of numbers that are not negative. -/
theorem add_finite {m n : Nat} (fits : roundUnits (m + n) 1 < overflowUnits) :
    add (.finite false m) (.finite false n) = .finite false (roundUnits (m + n) 1) := by
  have total : signedUnits false m + signedUnits false n = ((m + n : Nat) : Int) := rfl
  rw [add, total]
  rcases Nat.eq_zero_or_pos (m + n) with zero | some
  · rw [zero]
    rfl
  · have positive : ¬ ((m + n : Nat) : Int) = 0 := by omega
    have sign : decide (((m + n : Nat) : Int) < 0) = false := decide_eq_false (by omega)
    rw [if_neg positive, sign, Int.natAbs_natCast, ofUnits, if_pos fits]

end Binary64

namespace Duration

open Binary64

variable {d : Duration}

/-! ### Spans as seconds

The seconds of a span are the sum of two doubles, the whole seconds and the fraction, each of them rounded and
the sum rounded again.  The errors of these roundings are bounded one by one. -/

/-- The whole seconds of a span, rounded to a double. -/
def wholeUnits (d : Duration) : Nat := roundUnits (d.wholeSeconds * unitsPerOne) 1

/-- The fraction of a second, rounded to a double. -/
def fractionUnits (d : Duration) : Nat :=
  roundUnits (d.subsecondNanos * unitsPerOne * unitsPerOne) (nanosPerSecond * unitsPerOne)

/-- The seconds of a span as a double, in units. -/
def secondsUnits (d : Duration) : Nat := roundUnits (d.wholeUnits + d.fractionUnits) 1

theorem nanos_eq (d : Duration) : d.nanos = d.wholeSeconds * nanosPerSecond + d.subsecondNanos :=
  (Nat.div_add_mod' d.nanos nanosPerSecond).symm

theorem subsecondNanos_lt (d : Duration) : d.subsecondNanos < nanosPerSecond :=
  Nat.mod_lt d.nanos (by decide)

theorem wholeUnits_le (h : d.InRange) : d.wholeUnits ≤ 2 ^ 64 * unitsPerOne := by
  refine roundUnits_le Nat.one_pos (representable_pow_mul 64) ?_
  rw [Nat.mul_one]
  exact Nat.mul_le_mul_right unitsPerOne (le_of_lt h)

theorem nanos_mul (d : Duration) : d.nanos * unitsPerOne =
    d.wholeSeconds * unitsPerOne * nanosPerSecond + d.subsecondNanos * unitsPerOne := by
  calc d.nanos * unitsPerOne
      = (d.wholeSeconds * nanosPerSecond + d.subsecondNanos) * unitsPerOne := by rw [← nanos_eq]
    _ = _ := by ring

theorem mul_nanosPerSecond (n : Nat) : n * nanosPerSecond = 1_000_000_000 * n := by
  rw [Nat.mul_comm, nanosPerSecond]

/-- The nanoseconds beyond the whole seconds leave room for one more in the second. -/
theorem subsecondNanos_mul_le (d : Duration) :
    d.subsecondNanos * unitsPerOne + unitsPerOne ≤ 1_000_000_000 * unitsPerOne := by
  calc d.subsecondNanos * unitsPerOne + unitsPerOne
      = (d.subsecondNanos + 1) * unitsPerOne := (Nat.succ_mul _ _).symm
    _ ≤ nanosPerSecond * unitsPerOne := Nat.mul_le_mul_right unitsPerOne d.subsecondNanos_lt
    _ = _ := by rw [nanosPerSecond]

theorem scale_pos : 0 < nanosPerSecond * unitsPerOne := Nat.mul_pos (by decide) unitsPerOne_pos

/-- The whole seconds move by at most one part in `2 ^ 53`. -/
theorem wholeUnits_error (d : Duration) :
    2 ^ 53 * d.wholeUnits ≤ (2 ^ 53 + 1) * (d.wholeSeconds * unitsPerOne) ∧
      (2 ^ 53 - 1) * (d.wholeSeconds * unitsPerOne) ≤ 2 ^ 53 * d.wholeUnits := by
  rcases Nat.eq_zero_or_pos d.wholeSeconds with none | some
  · have zero : d.wholeUnits = 0 := by
      have exact := roundUnits_of_representable (m := 0 * unitsPerOne) Nat.one_pos
        (representable_mul_unitsPerOne (by decide))
      rwa [Nat.mul_one, ← none, ← wholeUnits, none, Nat.zero_mul] at exact
    rw [none, zero, Nat.zero_mul]
    exact ⟨Nat.le_refl 0, Nat.le_refl 0⟩
  · have normal : 2 ^ 52 * 1 ≤ d.wholeSeconds * unitsPerOne := by
      have one : 2 ^ 52 ≤ unitsPerOne := pow_le_unitsPerOne (by decide)
      exact le_trans one (Nat.le_mul_of_pos_left unitsPerOne some)
    have error := roundUnits_error Nat.one_pos normal
    rwa [Nat.mul_one, ← wholeUnits] at error

/-- The fraction moves by at most one part in `2 ^ 53`. -/
theorem fractionUnits_error (d : Duration) :
    2 ^ 53 * (d.fractionUnits * nanosPerSecond) ≤ (2 ^ 53 + 1) * (d.subsecondNanos * unitsPerOne) ∧
      (2 ^ 53 - 1) * (d.subsecondNanos * unitsPerOne) ≤
        2 ^ 53 * (d.fractionUnits * nanosPerSecond) := by
  rcases Nat.eq_zero_or_pos d.subsecondNanos with none | some
  · have zero : d.fractionUnits = 0 := by
      have exact := roundUnits_of_representable (m := 0 * unitsPerOne) scale_pos
        (representable_mul_unitsPerOne (by decide))
      rw [fractionUnits, none, Nat.zero_mul, Nat.zero_mul]
      rwa [Nat.zero_mul, Nat.zero_mul] at exact
    rw [none, zero, Nat.zero_mul, Nat.zero_mul]
    exact ⟨Nat.le_refl 0, Nat.le_refl 0⟩
  · have normal : 2 ^ 52 * (nanosPerSecond * unitsPerOne) ≤
        d.subsecondNanos * unitsPerOne * unitsPerOne := by
      have large : 2 ^ 52 * nanosPerSecond ≤ unitsPerOne :=
        le_trans (by decide) (pow_le_unitsPerOne (k := 82) (by decide))
      calc 2 ^ 52 * (nanosPerSecond * unitsPerOne)
          = 2 ^ 52 * nanosPerSecond * unitsPerOne := by ring
        _ ≤ unitsPerOne * unitsPerOne := Nat.mul_le_mul_right unitsPerOne large
        _ ≤ d.subsecondNanos * (unitsPerOne * unitsPerOne) := Nat.le_mul_of_pos_left _ some
        _ = _ := by ring
    obtain ⟨above, below⟩ := roundUnits_error scale_pos normal
    rw [← fractionUnits] at above below
    constructor
    · refine Nat.le_of_mul_le_mul_right ?_ unitsPerOne_pos
      calc 2 ^ 53 * (d.fractionUnits * nanosPerSecond) * unitsPerOne
          = 2 ^ 53 * (d.fractionUnits * (nanosPerSecond * unitsPerOne)) := by ring
        _ ≤ (2 ^ 53 + 1) * (d.subsecondNanos * unitsPerOne * unitsPerOne) := above
        _ = _ := by ring
    · refine Nat.le_of_mul_le_mul_right ?_ unitsPerOne_pos
      calc (2 ^ 53 - 1) * (d.subsecondNanos * unitsPerOne) * unitsPerOne
          = (2 ^ 53 - 1) * (d.subsecondNanos * unitsPerOne * unitsPerOne) := by ring
        _ ≤ 2 ^ 53 * (d.fractionUnits * (nanosPerSecond * unitsPerOne)) := below
        _ = _ := by ring

/-- The fraction stays below a second. -/
theorem fractionUnits_lt (d : Duration) : d.fractionUnits < unitsPerOne := by
  obtain ⟨above, -⟩ := d.fractionUnits_error
  have one : 2 ^ 52 ≤ unitsPerOne := pow_le_unitsPerOne (by decide)
  have part := d.subsecondNanos_mul_le
  refine Nat.lt_of_mul_lt_mul_right (a := nanosPerSecond) ?_
  rw [mul_nanosPerSecond] at above ⊢
  rw [mul_nanosPerSecond]
  omega

theorem one_le_wholeSeconds (floor : ofSecs 1 ≤ d) : 1 ≤ d.wholeSeconds :=
  (Nat.le_div_iff_mul_le (by decide)).mpr floor

/-- From a second on the rounded whole seconds are at least a second. -/
theorem le_wholeUnits (floor : ofSecs 1 ≤ d) : unitsPerOne ≤ d.wholeUnits := by
  refine le_roundUnits Nat.one_pos representable_unitsPerOne ?_
  rw [Nat.mul_one]
  exact Nat.le_mul_of_pos_left unitsPerOne (one_le_wholeSeconds floor)

/-- A span of a second or more has at least one second as a double. -/
theorem le_secondsUnits (floor : ofSecs 1 ≤ d) : unitsPerOne ≤ d.secondsUnits := by
  have whole := le_wholeUnits floor
  exact le_roundUnits Nat.one_pos representable_unitsPerOne (by omega)

/-- From a second on the seconds of a span are right to one part in `2 ^ 51`. -/
theorem secondsUnits_error (floor : ofSecs 1 ≤ d) :
    2 ^ 51 * (d.secondsUnits * nanosPerSecond) ≤ (2 ^ 51 + 1) * (d.nanos * unitsPerOne) ∧
      (2 ^ 51 - 1) * (d.nanos * unitsPerOne) ≤ 2 ^ 51 * (d.secondsUnits * nanosPerSecond) := by
  have normal : 2 ^ 52 * 1 ≤ d.wholeUnits + d.fractionUnits := by
    have one : 2 ^ 52 ≤ unitsPerOne := pow_le_unitsPerOne (by decide)
    have whole := le_wholeUnits floor
    omega
  obtain ⟨sumAbove, sumBelow⟩ := roundUnits_error Nat.one_pos normal
  rw [Nat.mul_one, ← secondsUnits] at sumAbove sumBelow
  obtain ⟨wholeAbove, wholeBelow⟩ := d.wholeUnits_error
  obtain ⟨fractionAbove, fractionBelow⟩ := d.fractionUnits_error
  have parts := d.nanos_mul
  rw [mul_nanosPerSecond] at parts fractionAbove fractionBelow ⊢
  omega

/-- From `2 ^ 53` seconds on the fraction is lost. -/
theorem secondsUnits_of_large (large : 2 ^ 53 ≤ d.wholeSeconds) : d.secondsUnits = d.wholeUnits := by
  have start : 2 ^ 53 * unitsPerOne ≤ d.wholeUnits := by
    refine le_roundUnits Nat.one_pos (representable_pow_mul 53) ?_
    rw [Nat.mul_one]
    exact Nat.mul_le_mul_right unitsPerOne large
  have apart := two_le_place start
  have less := d.fractionUnits_lt
  refine roundUnits_of_near Nat.one_pos (representable_roundUnits Nat.one_pos) ?_ ?_
  · rw [Nat.mul_one]
    exact Nat.le_add_right d.wholeUnits d.fractionUnits
  · rw [Nat.mul_one]
    show 2 * (d.wholeUnits + d.fractionUnits) < 2 * d.wholeUnits + 2 ^ excessBits d.wholeUnits
    omega

/-- Below `2 ^ 53` seconds the whole seconds are exact. -/
theorem wholeUnits_of_small (small : d.wholeSeconds < 2 ^ 53) :
    d.wholeUnits = d.wholeSeconds * unitsPerOne := by
  have exact := roundUnits_of_representable Nat.one_pos (representable_mul_unitsPerOne small)
  rwa [Nat.mul_one] at exact

/-- No span has more seconds than a word of 64 binary digits can count. -/
theorem secondsUnits_le (h : d.InRange) : d.secondsUnits ≤ 2 ^ 64 * unitsPerOne := by
  rcases Nat.lt_or_ge d.wholeSeconds (2 ^ 53) with small | large
  · refine roundUnits_le Nat.one_pos (representable_pow_mul 64) ?_
    have less := d.fractionUnits_lt
    have whole : d.wholeSeconds * unitsPerOne ≤ 2 ^ 53 * unitsPerOne :=
      Nat.mul_le_mul_right unitsPerOne small.le
    rw [wholeUnits_of_small small]
    omega
  · rw [secondsUnits_of_large large]
    exact wholeUnits_le h

/-- The seconds of a span are never infinite or negative. -/
theorem toSeconds_eq (h : d.InRange) : d.toSeconds = .finite false d.secondsUnits := by
  have whole : ofNat d.wholeSeconds = .finite false d.wholeUnits := ofNat_eq (le_of_lt h)
  have less := d.fractionUnits_lt
  have fits : d.subsecondNanos < 2 ^ 53 := lt_trans d.subsecondNanos_lt (by decide)
  have fraction : div (ofNat d.subsecondNanos) (ofNat nanosPerSecond) =
      .finite false d.fractionUnits := by
    rw [ofNat_eq_of_lt fits, ofNat_eq_of_lt (by decide), div, if_neg scale_pos.ne',
      ← fractionUnits, ofUnits, if_pos (lt_overflowUnits (by omega))]
    rfl
  have bound := lt_overflowUnits (secondsUnits_le h)
  rw [toSeconds, whole, fraction, add_finite bound, secondsUnits]

/-- A double below the seconds of a span is rounded to nanoseconds no higher than that span. -/
theorem roundHalfEven_le_nanos {units : Nat} (bound : Representable units)
    (less : units < d.secondsUnits) :
    roundHalfEven (units * nanosPerSecond) unitsPerOne ≤ d.nanos := by
  have parts := d.nanos_mul
  have whole (within : units < d.wholeSeconds * unitsPerOne) :
      units * nanosPerSecond ≤ d.nanos * unitsPerOne := by
    rw [parts]
    exact le_trans (Nat.mul_le_mul_right nanosPerSecond within.le) (Nat.le_add_right _ _)
  rcases Nat.lt_or_ge d.wholeSeconds (2 ^ 53) with small | large
  · -- Only the last sum is rounded, so the double lies below the sum itself.
    have below : units < d.wholeSeconds * unitsPerOne + d.fractionUnits := by
      by_contra above
      have reached : d.secondsUnits ≤ units := by
        refine roundUnits_le Nat.one_pos bound ?_
        rw [wholeUnits_of_small small]
        omega
      omega
    obtain ⟨above, -⟩ := d.fractionUnits_error
    have part := d.subsecondNanos_mul_le
    refine roundHalfEven_le_of_lt unitsPerOne_pos ?_
    rw [mul_nanosPerSecond] at parts above ⊢
    have twice : (2 * d.nanos + 1) * unitsPerOne = 2 * (d.nanos * unitsPerOne) + unitsPerOne := by
      ring
    omega
  · -- The fraction is lost, and the double lies below the whole seconds.
    refine roundHalfEven_le unitsPerOne_pos (whole ?_)
    by_contra above
    have reached : d.wholeUnits ≤ units := roundUnits_le Nat.one_pos bound (by omega)
    rw [secondsUnits_of_large large] at less
    omega

end Duration

end Intake
