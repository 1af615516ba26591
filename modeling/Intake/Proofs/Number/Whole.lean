/-
Module: Intake.Proofs.Number.Whole
Purpose: Which doubles have a point in their plain text, and what stands in front of it and behind.
Main exports: Binary64.exponent_shortest_nonneg_iff, Binary64.IsNumeral, Binary64.positional_of_whole,
  Binary64.positional_of_fraction

A whole number is found on the grid of the units at the latest, where the quotient leaves no rest.  The other
direction needs no look at the search: a whole decimal is rounded to a whole number.
-/
import Intake.Proofs.Number.PlainText

namespace Intake

namespace Binary64

open Decimal (toBinary64 digitCount)

/-! ### Zeros at the end

Zeros at the end of a decimal are moved into its exponent. -/

theorem exponent_le_stripZeros (fuel : Nat) (d : Decimal) : d.exponent ≤ (stripZeros fuel d).exponent := by
  induction fuel generalizing d with
  | zero => exact Int.le_refl _
  | succ fuel ih =>
      rw [stripZeros]
      split
      · have further := ih ⟨d.digits / 10, d.exponent + 1⟩
        simp only at further
        omega
      · exact Int.le_refl _

/-- All zeros at the end are taken off. -/
theorem exponent_stripZeros_mul_pow {fuel k n : Nat} (enough : k ≤ fuel) (positive : 0 < n) (e : Int) :
    e + k ≤ (stripZeros fuel ⟨n * 10 ^ k, e⟩).exponent := by
  induction k generalizing fuel e with
  | zero =>
      rw [Nat.pow_zero, Nat.mul_one, Nat.cast_zero, Int.add_zero]
      exact exponent_le_stripZeros fuel ⟨n, e⟩
  | succ k ih =>
      obtain ⟨rest, rfl⟩ := Nat.exists_eq_add_one.mpr (Nat.lt_of_lt_of_le (Nat.succ_pos k) enough)
      have split : n * 10 ^ (k + 1) = n * 10 ^ k * 10 := by rw [Nat.pow_succ, Nat.mul_assoc]
      have some : n * 10 ^ (k + 1) ≠ 0 := (Nat.mul_pos positive (Nat.pow_pos (by decide))).ne'
      have zero : n * 10 ^ (k + 1) % 10 = 0 := by rw [split, Nat.mul_mod_left]
      have tenth : n * 10 ^ (k + 1) / 10 = n * 10 ^ k := by
        rw [split, Nat.mul_div_cancel _ (by decide)]
      have below : e + 1 + k ≤ (stripZeros rest ⟨n * 10 ^ k, e + 1⟩).exponent := ih (by omega) (e + 1)
      rw [stripZeros, if_pos ⟨some, zero⟩]
      simp only [tenth]
      omega

/-! ### Whole numbers among the digits that are found

For a whole number, the search for the shortest digits ends on the grid of the units at the latest, where the
number itself is found. -/

/-- The digits are those of the first grid on which some read back, or else those of the exact value. -/
theorem shortest_cases {units : Nat} (some : units ≠ 0) :
    (∃ d, ((List.range 17).findSome? fun k => onGrid? units (decimalPoint units - (k + 1 : Nat))) = .some d ∧
      shortest units = stripZeros (digitCount d.digits) d) ∨
    shortest units = stripZeros (digitCount (exactDecimal units).digits) (exactDecimal units) := by
  rw [shortest, if_neg some]
  cases search : (List.range 17).findSome? fun k => onGrid? units (decimalPoint units - (k + 1 : Nat)) with
  | some d => exact .inl ⟨d, rfl, by simp only [search, Option.getD_some]⟩
  | none => exact .inr (by simp only [search, Option.getD_none])

theorem exponent_of_onGrid {units : Nat} {exponent : Int} {d : Decimal}
    (found : onGrid? units exponent = some d) : d.exponent = exponent := by
  simp only [onGrid?] at found
  split at found
  all_goals
    split at found
    · cases found
      rfl
    · split at found
      · cases found
        rfl
      · cases found

theorem two_pow_le_ten_pow : 2 ^ 1024 ≤ 10 ^ 400 := by decide +kernel

theorem lt_two_pow_of_mul_lt {n m k : Nat} (h : n * 2 ^ k < 2 ^ (m + k)) : n < 2 ^ m := by
  rw [Nat.pow_add] at h
  exact Nat.lt_of_mul_lt_mul_right h

section Whole

-- The units are kept as a variable: the product with the units of one must never be evaluated.
variable {n units : Nat} (positive : 0 < n) (whole : units = n * unitsPerOne)

include whole

theorem div_of_whole : units / unitsPerOne = n := by
  rw [whole, Nat.mul_div_cancel n unitsPerOne_pos]

theorem mod_of_whole : units % unitsPerOne = 0 := by
  rw [whole, Nat.mul_mod_left]

include positive

theorem decimalPoint_of_whole : decimalPoint units = digitCount n := by
  have shifted (k : Nat) : digitCount (units * Nat.pow 10 k / unitsPerOne) = digitCount n + k := by
    rw [whole, Nat.mul_right_comm, Nat.mul_div_cancel _ unitsPerOne_pos]
    exact Decimal.digitCount_mul_pow positive k
  simp only [decimalPoint, shifted]
  omega

/-- The exact value has as many zeros at its end as it has places behind the point. -/
theorem exponent_nonneg_of_exact :
    0 ≤ (stripZeros (digitCount (exactDecimal units).digits) (exactDecimal units)).exponent := by
  have value : units * 5 ^ fractionDigits = n * 10 ^ fractionDigits := by
    rw [whole, unitsPerOne_eq, Nat.mul_assoc, Nat.mul_comm (2 ^ _), five_pow_mul_two_pow]
  have enough : fractionDigits ≤ digitCount (n * 10 ^ fractionDigits) := by
    rw [Decimal.digitCount_mul_pow positive]
    exact Nat.le_add_left ..
  have stripped := exponent_stripZeros_mul_pow enough positive (-(fractionDigits : Int))
  rw [Int.add_left_neg] at stripped
  rw [exactDecimal_eq, value]
  exact stripped

variable (exact : Representable units) (fits : units < overflowUnits)

include exact fits

/-- A whole number below the overflow is read back from its own digits. -/
theorem toBinary64_of_whole : toBinary64 false ⟨n, 0⟩ = .finite false units := by
  have less : n < 10 ^ 400 := by
    rw [whole, unitsPerOne_eq, overflowUnits_eq] at fits
    exact Nat.lt_of_lt_of_le (lt_two_pow_of_mul_lt fits) two_pow_le_ten_pow
  have few : digitCount n ≤ 400 := Decimal.digitCount_le (by decide) less
  have rounded : roundUnits (n * unitsPerOne) 1 = units := by
    have same := roundUnits_of_representable Nat.one_pos exact
    rw [Nat.mul_one] at same
    rwa [← whole]
  have ratio : toBinary64 false ⟨n, 0⟩ = ofRatio false n 1 := by
    have high : ¬ Decimal.greatestMagnitude < (digitCount n : Int) + 0 := by
      rw [Decimal.greatestMagnitude]
      omega
    have low : ¬ (digitCount n : Int) + 0 < Decimal.leastMagnitude := by
      rw [Decimal.leastMagnitude]
      omega
    simp only [toBinary64, if_neg positive.ne', if_neg high, if_neg low, if_pos (Int.le_refl 0)]
    exact congrArg (ofRatio false · 1) (Nat.mul_one n)
  rw [ratio, ofRatio, rounded, ofUnits, if_pos fits]

/-- On the grid of the units there is no rest, so the quotient itself is tried first. -/
theorem onGrid?_of_whole : onGrid? units 0 = some ⟨n, 0⟩ := by
  have ratio : scaledRatio units 0 = (units, unitsPerOne) := by
    have ten : Nat.pow 10 0 = 1 := rfl
    rw [scaledRatio, if_pos (Int.le_refl 0), Int.toNat_zero, ten, Nat.mul_one]
  have reads := toBinary64_of_whole positive whole exact fits
  have quotient := div_of_whole whole
  have rest := mod_of_whole whole
  have some := unitsPerOne_pos
  rw [onGrid?, ratio]
  simp only [quotient, rest, Nat.mul_zero, some, true_or, if_true, reads, beq_self_eq_true]

/-- What is found for a whole number is whole: if the search comes to the grid of the units at all, it ends there
at the latest. -/
theorem exponent_nonneg_of_search {d : Decimal}
    (search : ((List.range 17).findSome? fun k => onGrid? units (decimalPoint units - (k + 1 : Nat))) = some d) :
    0 ≤ d.exponent := by
  obtain ⟨before, k, behind, split, found, none⟩ := List.findSome?_eq_some_iff.mp search
  have inside : before.length < 17 := by
    have total := congrArg List.length split
    simp only [List.length_range, List.length_append, List.length_cons] at total
    omega
  have place (i : Nat) : (List.range 17)[i]? = (before ++ k :: behind)[i]? := by rw [split]
  have first : before.length = k := by simpa [List.getElem?_range inside] using place before.length
  rw [exponent_of_onGrid found, decimalPoint_of_whole positive whole]
  by_contra beyond
  have some : 0 < digitCount n := Nat.length_toDigits_pos
  have earlier : digitCount n - 1 < before.length := by omega
  have member : digitCount n - 1 ∈ before := by
    have own := place (digitCount n - 1)
    rw [List.getElem?_append_left earlier, List.getElem?_range (earlier.trans inside)] at own
    exact List.mem_of_getElem? own.symm
  have missed := none _ member
  have origin : (digitCount n : Int) - (digitCount n - 1 + 1 : Nat) = 0 := by omega
  rw [decimalPoint_of_whole positive whole, origin, onGrid?_of_whole positive whole exact fits] at missed
  cases missed

/-- The shortest digits of a whole number have no places behind the point. -/
theorem exponent_shortest_of_whole : 0 ≤ (shortest units).exponent := by
  have some : units ≠ 0 := by
    rw [whole]
    exact Nat.mul_ne_zero positive.ne' unitsPerOne_pos.ne'
  rcases shortest_cases some with ⟨d, search, found⟩ | found
  · rw [found]
    exact (exponent_nonneg_of_search positive whole exact fits search).trans (exponent_le_stripZeros _ d)
  · rw [found]
    exact exponent_nonneg_of_exact positive whole

end Whole

/-! ### Whole decimals

A double is a whole number exactly if its shortest digits have no places behind the point. -/

/-- A whole number is rounded to a whole number. -/
theorem unitsPerOne_dvd_roundUnits (n : Nat) : unitsPerOne ∣ roundUnits (n * unitsPerOne) 1 := by
  rw [roundUnits_eq, Nat.div_one, Nat.one_mul]
  rcases Nat.le_total (excessBits (n * unitsPerOne)) fractionDigits with few | many
  · -- No digit is lost: the last place divides the units of a whole number.
    have place : 2 ^ excessBits (n * unitsPerOne) ∣ n * unitsPerOne := by
      rw [unitsPerOne_eq]
      exact (Nat.pow_dvd_pow 2 (unitsPerOne_eq ▸ few)).mul_left n
    obtain ⟨k, split⟩ := place
    have kept := roundHalfEven_whole (Nat.two_pow_pos (excessBits (n * unitsPerOne))) k
    rw [Nat.mul_comm k, ← split] at kept
    rw [kept, Nat.mul_comm k, ← split]
    exact Dvd.intro_left n rfl
  · have place : unitsPerOne ∣ 2 ^ excessBits (n * unitsPerOne) := by
      conv_lhs => rw [unitsPerOne_eq]
      exact Nat.pow_dvd_pow 2 many
    exact place.mul_left _

theorem whole_of_toBinary64 {d : Decimal} {units : Nat} (reads : toBinary64 false d = .finite false units)
    (whole : 0 ≤ d.exponent) : unitsPerOne ∣ units := by
  rw [toBinary64] at reads
  split at reads
  · cases reads
    exact dvd_zero _
  · split at reads
    · cases reads
    · split at reads
      · cases reads
        exact dvd_zero _
      · rw [ofRatio, ofUnits] at reads
        split at reads
        · cases reads
          exact unitsPerOne_dvd_roundUnits _
        · cases reads

/-- The plain text of a double has no fraction exactly if the double is a whole number. -/
theorem exponent_shortest_nonneg_iff {units : Nat} (exact : Representable units)
    (fits : units < overflowUnits) : 0 ≤ (shortest units).exponent ↔ unitsPerOne ∣ units := by
  constructor
  · exact whole_of_toBinary64 (toBinary64_shortest exact fits)
  · rintro ⟨n, whole⟩
    rcases Nat.eq_zero_or_pos n with rfl | positive
    · rw [whole, Nat.mul_zero]
      exact Int.le_refl 0
    · exact exponent_shortest_of_whole positive (whole.trans (Nat.mul_comm _ _)) exact fits

/-! ### The digits around the point

How the digits stand around the point in a plain text. -/

/-- Digits without a zero in front of others. -/
structure IsNumeral (s : List Char) : Prop where
  digits : ∀ c ∈ s, isDigit c = true
  nonempty : s ≠ []
  lead : s.head? = some '0' → s = ['0']

theorem head?_append_of_ne_nil {s t : List Char} (nonempty : s ≠ []) : (s ++ t).head? = s.head? := by
  obtain ⟨c, rest, rfl⟩ := List.exists_cons_of_ne_nil nonempty
  rfl

theorem head?_toDigits_ne {n : Nat} (positive : 0 < n) : (Nat.toDigits 10 n).head? ≠ some '0' := by
  induction n using Nat.strongRecOn with
  | ind n ih =>
      rcases Nat.lt_or_ge n 10 with small | large
      · rw [Nat.toDigits_of_lt_base small]
        have all : ∀ n < 10, 0 < n → [Nat.digitChar n].head? ≠ some '0' := by decide
        exact all n small positive
      · rw [Nat.toDigits_of_base_le (by decide) large, head?_append_of_ne_nil Nat.toDigits_ne_nil]
        exact ih (n / 10) (by omega) (by omega)

theorem isNumeral_toDigits (n : Nat) : IsNumeral (Nat.toDigits 10 n) where
  digits _ := isDigit_of_mem_toDigits
  nonempty := Nat.toDigits_ne_nil
  lead zero := by
    rcases Nat.eq_zero_or_pos n with rfl | positive
    · rfl
    · exact absurd zero (head?_toDigits_ne positive)

/-- A whole decimal is its digits and zeros. -/
theorem positional_of_whole {d : Decimal} (whole : 0 ≤ d.exponent) (plain : d.digits = 0 → d.exponent = 0) :
    IsNumeral (positional d) := by
  rw [positional]
  simp only [if_pos whole]
  refine ⟨fun c member => ?_, by simp [Nat.toDigits_ne_nil], fun zero => ?_⟩
  · exact (List.mem_append.mp member).elim isDigit_of_mem_toDigits isDigit_zero_of_mem
  · rw [head?_append_of_ne_nil Nat.toDigits_ne_nil] at zero
    rcases Nat.eq_zero_or_pos d.digits with none | positive
    · rw [none, plain none]
      rfl
    · exact absurd zero (head?_toDigits_ne positive)

/-- Any other decimal has places behind a point. -/
theorem positional_of_fraction {d : Decimal} (fraction : d.exponent < 0) :
    ∃ whole places, positional d = whole ++ '.' :: places ∧ IsNumeral whole ∧
      (∀ c ∈ places, isDigit c = true) ∧ places ≠ [] := by
  have digits : ∀ c ∈ Nat.toDigits 10 d.digits, isDigit c = true := fun _ => isDigit_of_mem_toDigits
  rw [positional]
  simp only [if_neg (Int.not_le.mpr fraction)]
  split
  · next within =>
      have front : 0 < (Nat.toDigits 10 d.digits).length - (-d.exponent).toNat := by omega
      refine ⟨_, _, rfl, ⟨fun c member => digits c (List.mem_of_mem_take member), ?_, fun zero => ?_⟩,
        fun c member => digits c (List.mem_of_mem_drop member), ?_⟩
      · exact List.ne_nil_of_length_pos (by rw [List.length_take]; omega)
      · rw [List.head?_take, if_neg front.ne'] at zero
        have one := (isNumeral_toDigits d.digits).lead zero
        rw [one, List.length_singleton] at within
        omega
      · exact List.ne_nil_of_length_pos (by rw [List.length_drop]; omega)
  · refine ⟨['0'], _, rfl, ⟨?_, by simp, fun _ => rfl⟩, fun c member => ?_, by simp [Nat.toDigits_ne_nil]⟩
    · intro c member
      rw [List.mem_singleton.mp member]
      decide
    · exact (List.mem_append.mp member).elim isDigit_zero_of_mem (digits c)

end Binary64

end Intake
