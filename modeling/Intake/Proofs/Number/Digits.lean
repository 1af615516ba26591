/-
Module: Intake.Proofs.Number.Digits
Purpose: The decimal digits of natural numbers, and what reading them gives.
Main exports: isDigit_of_mem_toDigits, appendDigits_toDigits, readNatural_toDigits, readNatural_le,
  Decimal.digitCount_mul_pow

The digits of a number are those of its tenth and one more, so every fact about them is an induction along
tenths.
-/
import Mathlib.Algebra.GroupWithZero.Nat
import Intake.Number.Decimal

namespace Intake

/-! ### Single digits

The ten digits, as characters and as values. -/

theorem digitValue?_digitChar {d : Nat} (small : d < 10) : digitValue? d.digitChar = some d := by
  have all : ∀ d < 10, digitValue? (Nat.digitChar d) = some d := by decide
  exact all d small

theorem isDigit_of_mem_toDigits {n : Nat} {c : Char} (member : c ∈ Nat.toDigits 10 n) :
    isDigit c = true := by
  have digit := Nat.isDigit_of_mem_toDigits (by decide) (Nat.le_refl 10) member
  have bounds : '0' ≤ c ∧ c ≤ '9' := by simpa [Char.isDigit, Char.le_def] using digit
  rw [isDigit, digitValue?, if_pos bounds]
  rfl

theorem ne_of_isDigit {c d : Char} (digit : isDigit c = true) (other : isDigit d = false) : c ≠ d := by
  rintro rfl
  rw [digit] at other
  cases other

/-! ### Reading digits

Digits are read from left to right, and each of them is added at the end of a number. -/

theorem appendDigits_append (acc : Nat) (one two : List Char) :
    appendDigits acc (one ++ two) = appendDigits (appendDigits acc one) two := List.foldl_append

theorem appendDigits_zeros (acc k : Nat) :
    appendDigits acc (List.replicate k '0') = acc * 10 ^ k := by
  induction k generalizing acc with
  | zero => simp [appendDigits]
  | succ k ih =>
      have first : appendDigits acc (List.replicate (k + 1) '0') =
          appendDigits (10 * acc) (List.replicate k '0') := rfl
      rw [first, ih, Nat.pow_succ]
      ac_rfl

/-- The digits of a number make it up again. -/
theorem appendDigits_toDigits (n : Nat) : appendDigits 0 (Nat.toDigits 10 n) = n := by
  induction n using Nat.strongRecOn with
  | ind n ih =>
      rcases Nat.lt_or_ge n 10 with small | large
      · rw [Nat.toDigits_of_lt_base small, appendDigits, List.foldl_cons, digitValue?_digitChar small]
        simp
      · have last : n % 10 < 10 := Nat.mod_lt n (by decide)
        rw [Nat.toDigits_of_base_le (by decide) large, appendDigits_append, ih (n / 10) (by omega),
          appendDigits, List.foldl_cons, digitValue?_digitChar last]
        exact Nat.div_add_mod n 10

theorem readDigits_append (limit acc : Nat) (one two : List Char) :
    readDigits limit acc (one ++ two) =
      (readDigits limit acc one).bind fun acc => readDigits limit acc two := by
  induction one generalizing acc with
  | nil => rfl
  | cons c rest ih =>
      simp only [List.cons_append, readDigits]
      cases digitValue? c with
      | none => rfl
      | some d =>
          simp only
          split
          · exact ih _
          · rfl

/-- No number met on the way is above the number itself. -/
theorem readDigits_toDigits {limit n : Nat} (fits : n ≤ limit) :
    readDigits limit 0 (Nat.toDigits 10 n) = .ok n := by
  induction n using Nat.strongRecOn with
  | ind n ih =>
      rcases Nat.lt_or_ge n 10 with small | large
      · rw [Nat.toDigits_of_lt_base small, readDigits, digitValue?_digitChar small]
        simp [readDigits, fits]
      · have last : n % 10 < 10 := Nat.mod_lt n (by decide)
        have whole : 10 * (n / 10) + n % 10 = n := Nat.div_add_mod n 10
        rw [Nat.toDigits_of_base_le (by decide) large, readDigits_append,
          ih (n / 10) (by omega) (by omega)]
        simp only [Except.bind, readDigits, digitValue?_digitChar last, whole, if_pos fits]

/-- A number within the limit is read back from its digits. -/
theorem readNatural_toDigits {limit n : Nat} (fits : n ≤ limit) :
    readNatural limit (Nat.toDigits 10 n) = .ok n := by
  have digits : ∀ c ∈ Nat.toDigits 10 n, isDigit c = true := fun _ => isDigit_of_mem_toDigits
  rw [readNatural.eq_def]
  split
  · next none => exact absurd none Nat.toDigits_ne_nil
  · next sign =>
      rw [sign] at digits
      exact absurd (digits '+' List.mem_cons_self) (by decide)
  · next rest sign =>
      rw [sign] at digits
      exact absurd (digits '+' List.mem_cons_self) (by decide)
  · exact readDigits_toDigits fits

/-- No number beyond the limit is read. -/
theorem readDigits_le {limit acc n : Nat} {s : List Char} (start : acc ≤ limit)
    (done : readDigits limit acc s = .ok n) : n ≤ limit := by
  induction s generalizing acc with
  | nil =>
      cases done
      exact start
  | cons c rest ih =>
      rw [readDigits] at done
      split at done
      · cases done
      · split at done
        · next within => exact ih within done
        · cases done

/-- What is read is within the limit. -/
theorem readNatural_le {limit n : Nat} {s : List Char} (done : readNatural limit s = .ok n) : n ≤ limit := by
  rw [readNatural.eq_def] at done
  split at done
  · cases done
  · cases done
  · exact readDigits_le (Nat.zero_le limit) done
  · exact readDigits_le (Nat.zero_le limit) done

/-! ### Counting digits

A number has one digit for each power of ten that it reaches. -/

theorem toDigits_mul_ten {n : Nat} (positive : 0 < n) :
    Nat.toDigits 10 (n * 10) = Nat.toDigits 10 n ++ ['0'] := by
  have step := Nat.toDigits_append_toDigits (b := 10) (d := 0) (by decide) positive (by decide)
  rw [Nat.add_zero, Nat.mul_comm] at step
  exact step.symm

/-- Each zero at the end of a number is one more digit. -/
theorem Decimal.digitCount_mul_pow {n : Nat} (positive : 0 < n) (k : Nat) :
    digitCount (n * 10 ^ k) = digitCount n + k := by
  induction k with
  | zero => rw [Nat.pow_zero, Nat.mul_one, Nat.add_zero]
  | succ k ih =>
      have more : 0 < n * 10 ^ k := Nat.mul_pos positive (Nat.pow_pos (by decide))
      rw [Nat.pow_succ, ← Nat.mul_assoc, digitCount, toDigits_mul_ten more, List.length_append,
        ← digitCount, ih]
      rfl

end Intake
