/-
Module: Intake.Proofs.Number.Rounding
Purpose: How far rounding moves a quotient, and which bounds of the quotient it keeps.
Main exports: roundHalfEven_half, roundHalfEven_le_of_lt, le_roundHalfEven_of_lt, le_roundHalfEven,
  Binary64.Representable, Binary64.roundUnits_le, Binary64.le_roundUnits, Binary64.roundUnits_half,
  Binary64.roundUnits_error, Binary64.roundUnits_of_near, Binary64.le_roundUnits_of_near

A bound that is itself a double survives rounding to doubles.  Every quotient moves by at most half a place
of its last binary digit, which is one part in `2 ^ 53` of it from `2 ^ 52` units on.
-/
import Mathlib.Tactic.Linarith
import Mathlib.Tactic.Ring
import Intake.Number.Binary64

namespace Intake

/-! ### Nearest whole numbers

A quotient is rounded to the nearest whole number, and to the even one of two. -/

section Whole

variable {num den k : Nat}

/-- The nearest whole number is at most a half away from the quotient. -/
theorem roundHalfEven_half (num : Nat) (positive : 0 < den) :
    2 * (roundHalfEven num den * den) ≤ 2 * num + den ∧
      2 * num ≤ 2 * (roundHalfEven num den * den) + den := by
  have parts : num / den * den + num % den = num := Nat.div_add_mod' num den
  have rest : num % den < den := Nat.mod_lt num positive
  have next : (num / den + 1) * den = num / den * den + den := Nat.succ_mul _ den
  simp only [roundHalfEven]
  split
  · omega
  · split
    · omega
    · split
      · omega
      · omega

/-- A quotient that is less than a half above a whole number is not rounded beyond that number. -/
theorem roundHalfEven_le_of_lt (positive : 0 < den) (h : 2 * num < (2 * k + 1) * den) :
    roundHalfEven num den ≤ k := by
  obtain ⟨above, -⟩ := roundHalfEven_half num positive
  have less : roundHalfEven num den * den < (k + 1) * den := by nlinarith
  exact Nat.lt_succ_iff.mp (Nat.lt_of_mul_lt_mul_right less)

/-- A quotient that is less than a half below a whole number is rounded to that number at least. -/
theorem le_roundHalfEven_of_lt (positive : 0 < den) (h : 2 * (k * den) < 2 * num + den) :
    k ≤ roundHalfEven num den := by
  obtain ⟨-, below⟩ := roundHalfEven_half num positive
  have less : k * den < (roundHalfEven num den + 1) * den := by
    rw [Nat.add_mul, Nat.one_mul]
    omega
  exact Nat.lt_succ_iff.mp (Nat.lt_of_mul_lt_mul_right less)

/-- A quotient is not rounded beyond a whole number above it. -/
theorem roundHalfEven_le (positive : 0 < den) (h : num ≤ k * den) : roundHalfEven num den ≤ k :=
  roundHalfEven_le_of_lt positive (by nlinarith)

/-- Nor beyond one below it. -/
theorem le_roundHalfEven (positive : 0 < den) (h : k * den ≤ num) : k ≤ roundHalfEven num den := by
  obtain ⟨-, below⟩ := roundHalfEven_half num positive
  have less : k * den < (roundHalfEven num den + 1) * den := by nlinarith
  exact Nat.lt_succ_iff.mp (Nat.lt_of_mul_lt_mul_right less)

/-- A whole number is nearest to itself. -/
theorem roundHalfEven_whole (positive : 0 < den) (k : Nat) : roundHalfEven (k * den) den = k :=
  Nat.le_antisymm (roundHalfEven_le positive le_rfl) (le_roundHalfEven positive le_rfl)

end Whole

namespace Binary64

variable {num den m n : Nat}

/-! ### Magnitudes of doubles

A magnitude is a number of units.  It is representable if all but its first 53 binary digits are zeros. -/

/-- A magnitude that 53 significant binary digits hold. -/
def Representable (units : Nat) : Prop := 2 ^ excessBits units ∣ units

theorem excessBits_mono (h : m ≤ n) : excessBits m ≤ excessBits n := by
  by_cases zero : m = 0
  · subst zero
    exact Nat.zero_le _
  · have digits : Nat.log2 m ≤ Nat.log2 n :=
      (Nat.le_log2 (by omega)).mpr ((Nat.log2_self_le zero).trans h)
    exact Nat.sub_le_sub_right digits 52

theorem lt_of_excessBits (m : Nat) : m < 2 ^ (53 + excessBits m) := by
  have above : m < 2 ^ (Nat.log2 m + 1) := Nat.lt_log2_self
  refine lt_of_lt_of_le above (Nat.pow_le_pow_right (by decide) ?_)
  rw [excessBits]
  omega

theorem le_of_excessBits (h : 0 < excessBits m) : 2 ^ (52 + excessBits m) ≤ m := by
  have nonzero : m ≠ 0 := by
    rintro rfl
    exact absurd h (by decide)
  have exact : 52 + excessBits m = Nat.log2 m := by
    rw [excessBits] at h ⊢
    omega
  rw [exact]
  exact Nat.log2_self_le nonzero

/-- The number of digits too many, from the power of two just below. -/
theorem excessBits_eq {s : Nat} (low : 2 ^ (52 + s) ≤ m) (high : m < 2 ^ (53 + s)) :
    excessBits m = s := by
  have positive : m ≠ 0 := by
    have := Nat.two_pow_pos (52 + s)
    omega
  have digits : Nat.log2 m = 52 + s := by
    rw [Nat.log2_eq_iff positive]
    exact ⟨low, by rwa [show 52 + s + 1 = 53 + s by omega]⟩
  rw [excessBits, digits, Nat.add_sub_cancel_left]

theorem le_excessBits (h : 2 ^ (52 + n) ≤ m) : n ≤ excessBits m := by
  have start : excessBits (2 ^ (52 + n)) = n :=
    excessBits_eq le_rfl (Nat.pow_lt_pow_right (by decide) (by omega))
  rw [← start]
  exact excessBits_mono h

theorem excessBits_le (h : m < 2 ^ (53 + n)) : excessBits m ≤ n := by
  by_contra more
  have low := le_of_excessBits (m := m) (by omega)
  have grows : 2 ^ (53 + n) ≤ 2 ^ (52 + excessBits m) := Nat.pow_le_pow_right (by decide) (by omega)
  omega

theorem excessBits_eq_zero (h : m < 2 ^ 53) : excessBits m = 0 := by
  by_cases zero : m = 0
  · subst zero
    decide
  · have digits : Nat.log2 m < 53 := (Nat.log2_lt zero).mpr h
    rw [excessBits]
    omega

/-- A number of at most 53 binary digits, followed by zeros, is representable. -/
theorem representable_mul_pow {k : Nat} (h : k < 2 ^ 53) (s : Nat) : Representable (k * 2 ^ s) := by
  have few : excessBits (k * 2 ^ s) ≤ s := by
    by_contra more
    have low := le_of_excessBits (m := k * 2 ^ s) (by omega)
    have grows : 2 ^ (53 + s) ≤ 2 ^ (52 + excessBits (k * 2 ^ s)) :=
      Nat.pow_le_pow_right (by decide) (by omega)
    rw [Nat.pow_add] at grows
    have less : k * 2 ^ s < 2 ^ 53 * 2 ^ s := Nat.mul_lt_mul_of_pos_right h (Nat.two_pow_pos s)
    omega
  exact (Nat.pow_dvd_pow 2 few).mul_left k

/-! ### Rounding to doubles

Rounding takes away the digits that are too many.  It keeps the order with representable magnitudes, and moves
a quotient by half a place at most. -/

/-- Rounding to a double is rounding to a multiple of its last place. -/
theorem roundUnits_eq (num den : Nat) : roundUnits num den =
    roundHalfEven num (den * 2 ^ excessBits (num / den)) * 2 ^ excessBits (num / den) := rfl

/-- A representable bound from above survives rounding. -/
theorem roundUnits_le (positive : 0 < den) (bound : Representable m) (h : num ≤ m * den) :
    roundUnits num den ≤ m := by
  have floor : num / den ≤ m := Nat.div_le_of_le_mul (by rwa [Nat.mul_comm] at h)
  obtain ⟨k, split⟩ : 2 ^ excessBits (num / den) ∣ m :=
    (Nat.pow_dvd_pow 2 (excessBits_mono floor)).trans bound
  have places : 0 < 2 ^ excessBits (num / den) := Nat.two_pow_pos _
  have near : roundHalfEven num (den * 2 ^ excessBits (num / den)) ≤ k := by
    refine roundHalfEven_le (Nat.mul_pos positive places) ?_
    calc num ≤ m * den := h
      _ = k * (den * 2 ^ excessBits (num / den)) := by rw [split]; ring
  calc roundUnits num den
      = roundHalfEven num (den * 2 ^ excessBits (num / den)) * 2 ^ excessBits (num / den) :=
        roundUnits_eq num den
    _ ≤ k * 2 ^ excessBits (num / den) := Nat.mul_le_mul_right _ near
    _ = m := by rw [Nat.mul_comm]; exact split.symm

/-- The last place is one part in `2 ^ 52` of the quotient at most, wherever a digit is lost. -/
theorem place_mul_le (lost : 0 < excessBits (num / den)) :
    2 ^ 52 * (den * 2 ^ excessBits (num / den)) ≤ num := by
  calc 2 ^ 52 * (den * 2 ^ excessBits (num / den))
      = 2 ^ (52 + excessBits (num / den)) * den := by rw [Nat.pow_add]; ring
    _ ≤ num / den * den := Nat.mul_le_mul_right den (le_of_excessBits lost)
    _ ≤ num := Nat.div_mul_le_self num den

/-- A representable bound from below survives rounding. -/
theorem le_roundUnits (positive : 0 < den) (bound : Representable m) (h : m * den ≤ num) :
    m ≤ roundUnits num den := by
  have floor : m ≤ num / den := (Nat.le_div_iff_mul_le positive).mpr h
  have scale : 0 < den * 2 ^ excessBits (num / den) := Nat.mul_pos positive (Nat.two_pow_pos _)
  rw [roundUnits_eq]
  rcases (excessBits_mono floor).eq_or_lt with same | fewer
  · -- Both numbers have the same last place.
    obtain ⟨k, split⟩ := bound
    rw [same] at split
    have near : k ≤ roundHalfEven num (den * 2 ^ excessBits (num / den)) := by
      refine le_roundHalfEven scale ?_
      calc k * (den * 2 ^ excessBits (num / den)) = m * den := by rw [split]; ring
        _ ≤ num := h
    calc m = k * 2 ^ excessBits (num / den) := by rw [Nat.mul_comm]; exact split
      _ ≤ _ := Nat.mul_le_mul_right _ near
  · -- The quotient has a greater power of two in it than the bound.
    have near : 2 ^ 52 ≤ roundHalfEven num (den * 2 ^ excessBits (num / den)) :=
      le_roundHalfEven scale (place_mul_le (by omega))
    calc m ≤ 2 ^ (53 + excessBits m) := (lt_of_excessBits m).le
      _ ≤ 2 ^ (52 + excessBits (num / den)) := Nat.pow_le_pow_right (by decide) (by omega)
      _ = 2 ^ 52 * 2 ^ excessBits (num / den) := Nat.pow_add 2 52 _
      _ ≤ _ := Nat.mul_le_mul_right _ near

/-- A representable magnitude is rounded to itself. -/
theorem roundUnits_of_representable (positive : 0 < den) (h : Representable m) :
    roundUnits (m * den) den = m :=
  Nat.le_antisymm (roundUnits_le positive h le_rfl) (le_roundUnits positive h le_rfl)

/-- Rounding gives a representable magnitude. -/
theorem representable_roundUnits (positive : 0 < den) : Representable (roundUnits num den) := by
  have places : 0 < 2 ^ excessBits (num / den) := Nat.two_pow_pos _
  have near : roundHalfEven num (den * 2 ^ excessBits (num / den)) ≤ 2 ^ 53 := by
    refine roundHalfEven_le (Nat.mul_pos positive places) ?_
    have high := lt_of_excessBits (num / den)
    have below : num < (num / den + 1) * den := by
      rw [Nat.add_mul, Nat.one_mul, Nat.mul_comm]
      exact Nat.lt_mul_div_succ num positive
    calc num ≤ (num / den + 1) * den := below.le
      _ ≤ 2 ^ (53 + excessBits (num / den)) * den := Nat.mul_le_mul_right den high
      _ = 2 ^ 53 * (den * 2 ^ excessBits (num / den)) := by rw [Nat.pow_add]; ring
  rw [roundUnits_eq]
  rcases near.eq_or_lt with carry | fits
  · -- The digits overflow into the next power of two.
    rw [carry, ← Nat.pow_add, ← Nat.one_mul (2 ^ (53 + _))]
    exact representable_mul_pow (by decide) _
  · exact representable_mul_pow fits _

/-- Rounding moves a quotient by at most half a place of its last binary digit. -/
theorem roundUnits_half (num : Nat) (positive : 0 < den) :
    2 * (roundUnits num den * den) ≤ 2 * num + den * 2 ^ excessBits (num / den) ∧
      2 * num ≤ 2 * (roundUnits num den * den) + den * 2 ^ excessBits (num / den) := by
  have scale : 0 < den * 2 ^ excessBits (num / den) := Nat.mul_pos positive (Nat.two_pow_pos _)
  have moved : roundUnits num den * den =
      roundHalfEven num (den * 2 ^ excessBits (num / den)) * (den * 2 ^ excessBits (num / den)) := by
    rw [roundUnits_eq]
    ring
  rw [moved]
  exact roundHalfEven_half num scale

/-- From `2 ^ 52` units on rounding moves a quotient by at most one part in `2 ^ 53`. -/
theorem roundUnits_error (positive : 0 < den) (normal : 2 ^ 52 * den ≤ num) :
    2 ^ 53 * (roundUnits num den * den) ≤ (2 ^ 53 + 1) * num ∧
      (2 ^ 53 - 1) * num ≤ 2 ^ 53 * (roundUnits num den * den) := by
  have last : 2 ^ 52 * (den * 2 ^ excessBits (num / den)) ≤ num := by
    rcases Nat.eq_zero_or_pos (excessBits (num / den)) with none | some
    · rwa [none, Nat.pow_zero, Nat.mul_one]
    · exact place_mul_le some
  obtain ⟨above, below⟩ := roundUnits_half num positive
  constructor
  · omega
  · omega

/-- A quotient that is less than half a place above a representable magnitude is rounded down to it. -/
theorem roundUnits_of_near (positive : 0 < den) (bound : Representable m) (low : m * den ≤ num)
    (high : 2 * num < (2 * m + 2 ^ excessBits m) * den) : roundUnits num den = m := by
  refine Nat.le_antisymm ?_ (le_roundUnits positive bound low)
  obtain ⟨k, split⟩ := bound
  have places : 0 < 2 ^ excessBits m := Nat.two_pow_pos _
  have floor : m ≤ num / den := (Nat.le_div_iff_mul_le positive).mpr low
  -- The next power of two is a whole number of places away.
  have ceiling : num / den < 2 ^ (53 + excessBits m) := by
    have next : k < 2 ^ 53 := by
      have less := lt_of_excessBits m
      rw [Nat.pow_add] at less
      refine Nat.lt_of_mul_lt_mul_right (a := 2 ^ excessBits m) ?_
      calc k * 2 ^ excessBits m = m := by rw [Nat.mul_comm]; exact split.symm
        _ < 2 ^ 53 * 2 ^ excessBits m := less
    have room : m + 2 ^ excessBits m ≤ 2 ^ (53 + excessBits m) := by
      calc m + 2 ^ excessBits m = (k + 1) * 2 ^ excessBits m := by
            rw [Nat.add_mul, Nat.one_mul, Nat.mul_comm k, ← split]
        _ ≤ 2 ^ 53 * 2 ^ excessBits m := Nat.mul_le_mul_right _ next
        _ = 2 ^ (53 + excessBits m) := (Nat.pow_add 2 53 _).symm
    refine (Nat.div_lt_iff_lt_mul positive).mpr ?_
    nlinarith
  have same : excessBits (num / den) = excessBits m := by
    rcases Nat.eq_zero_or_pos (excessBits m) with none | some
    · rw [none] at ceiling ⊢
      exact excessBits_eq_zero ceiling
    · exact excessBits_eq ((le_of_excessBits some).trans floor) ceiling
  have near : roundHalfEven num (den * 2 ^ excessBits m) ≤ k := by
    refine roundHalfEven_le_of_lt (Nat.mul_pos positive places) ?_
    calc 2 * num < (2 * m + 2 ^ excessBits m) * den := high
      _ = (2 * (2 ^ excessBits m * k) + 2 ^ excessBits m) * den := by rw [← split]
      _ = (2 * k + 1) * (den * 2 ^ excessBits m) := by ring
  rw [roundUnits_eq, same]
  calc roundHalfEven num (den * 2 ^ excessBits m) * 2 ^ excessBits m
      ≤ k * 2 ^ excessBits m := Nat.mul_le_mul_right _ near
    _ = m := by rw [Nat.mul_comm]; exact split.symm

/-- A quotient that is less than half a place below a representable magnitude is rounded up to it, unless that
magnitude is a power of two, below which places are smaller. -/
theorem le_roundUnits_of_near (positive : 0 < den) (exact : Representable m)
    (inside : 2 ^ (52 + excessBits m) < m)
    (near : 2 * (m * den) < 2 * num + 2 ^ excessBits m * den) : m ≤ roundUnits num den := by
  rcases Nat.lt_or_ge num (m * den) with below | above
  · obtain ⟨k, split⟩ := exact
    have places : 0 < 2 ^ excessBits m := Nat.two_pow_pos _
    -- The power of two below is a whole number of places away.
    have room : 2 ^ (52 + excessBits m) + 2 ^ excessBits m ≤ m := by
      have more : 2 ^ 52 < k := by
        refine Nat.lt_of_mul_lt_mul_right (a := 2 ^ excessBits m) ?_
        calc 2 ^ 52 * 2 ^ excessBits m = 2 ^ (52 + excessBits m) := (Nat.pow_add 2 52 _).symm
          _ < m := inside
          _ = k * 2 ^ excessBits m := by rw [Nat.mul_comm]; exact split
      calc 2 ^ (52 + excessBits m) + 2 ^ excessBits m = (2 ^ 52 + 1) * 2 ^ excessBits m := by
            rw [Nat.pow_add]; ring
        _ ≤ k * 2 ^ excessBits m := Nat.mul_le_mul_right _ more
        _ = m := by rw [Nat.mul_comm]; exact split.symm
    have floor : 2 ^ (52 + excessBits m) ≤ num / den := by
      refine (Nat.le_div_iff_mul_le positive).mpr ?_
      have scaled := Nat.mul_le_mul_right den room
      rw [Nat.add_mul] at scaled
      omega
    have ceiling : num / den < 2 ^ (53 + excessBits m) :=
      lt_trans ((Nat.div_lt_iff_lt_mul positive).mpr below) (lt_of_excessBits m)
    have same : excessBits (num / den) = excessBits m := excessBits_eq floor ceiling
    have value : k * (den * 2 ^ excessBits m) = m * den := by
      calc k * (den * 2 ^ excessBits m) = 2 ^ excessBits m * k * den := by ring
        _ = m * den := by rw [← split]
    have reached : k ≤ roundHalfEven num (den * 2 ^ excessBits m) := by
      refine le_roundHalfEven_of_lt (Nat.mul_pos positive places) ?_
      rw [value, Nat.mul_comm den]
      exact near
    rw [roundUnits_eq, same]
    calc m = k * 2 ^ excessBits m := by rw [Nat.mul_comm]; exact split
      _ ≤ _ := Nat.mul_le_mul_right _ reached
  · exact le_roundUnits positive exact above

end Binary64

end Intake
