/-
Module: Intake.Proofs.Time.Spans
Purpose: Which numbers of seconds are spans of time.
Main exports: Binary64.IsSeconds, Binary64.isSeconds_iff, Duration.isSeconds_of_ofSeconds?,
  Duration.isSome_ofSeconds?, Duration.ofSeconds?_eq_none_iff
-/
import Intake.Proofs.Time.Seconds

namespace Intake

/-- A number of seconds that is finite and not negative. -/
structure Binary64.IsSeconds (x : Binary64) : Prop where
  finite : x.isFinite = true
  nonneg : Binary64.lt x .zero = false

namespace Binary64

/-- Finite numbers are in order. -/
theorem lt_finite (a b : Bool) (m n : Nat) : lt (.finite a m) (.finite b n) = !le (.finite b n) (.finite a m) := by
  rw [lt, le, ← decide_not, decide_eq_decide, Int.not_le]

/-- The numbers of seconds are the finite ones from zero on. -/
theorem isSeconds_iff {x : Binary64} : x.IsSeconds ↔ (x.isFinite && le .zero x) = true := by
  cases x with
  | nan => exact iff_of_false (fun h => nomatch h.finite) (by decide)
  | infinite negative => exact iff_of_false (fun h => nomatch h.finite) (by simp [isFinite])
  | finite negative units =>
      have order : lt (.finite negative units) .zero = !le .zero (.finite negative units) := lt_finite ..
      rw [isFinite, Bool.true_and]
      constructor
      · intro h
        have nonneg := h.nonneg
        rwa [order, Bool.not_eq_false'] at nonneg
      · intro h
        exact ⟨rfl, by rw [order, h, Bool.not_true]⟩

end Binary64

namespace Duration

open Binary64

/-- The sign may be that of a negative zero. -/
theorem isSeconds_finite {negative : Bool} {units : Nat} (h : (Binary64.finite negative units).IsSeconds) :
    negative = false ∨ units = 0 := by
  have nonneg := h.nonneg
  rw [Binary64.zero, Binary64.lt, decide_eq_false_iff_not] at nonneg
  cases negative with
  | false => exact Or.inl rfl
  | true =>
      rw [signedUnits, if_pos rfl, signedUnits, if_neg Bool.false_ne_true] at nonneg
      exact Or.inr (by omega)

/-- What is a span at all is a number of seconds. -/
theorem isSeconds_of_ofSeconds? {x : Binary64} {d : Duration} (span : ofSeconds? x = some d) :
    x.IsSeconds := by
  cases x with
  | nan => cases span
  | infinite negative => cases span
  | finite negative units =>
      rw [ofSeconds?] at span
      split at span
      · cases span
      · next plain =>
          rw [isSeconds_iff, isFinite, Bool.true_and, Binary64.zero, le, decide_eq_true_iff]
          cases negative with
          | false => simp [signedUnits]
          | true =>
              have none : units = 0 := by simpa using plain
              rw [none]
              decide

/-- The first number of seconds that no span holds. -/
theorem ofNat_secondsLimit : Binary64.ofNat secondsLimit = .finite false (secondsLimit * unitsPerOne) := by
  have power : secondsLimit = 2 ^ 64 := by decide
  have exact := roundUnits_of_representable Nat.one_pos (representable_pow_mul 64)
  rw [Nat.mul_one] at exact
  rw [power, ofNat_eq (Nat.le_refl (2 ^ 64)), exact]

/-- Seconds below the limit, and no others, are a span of time. -/
theorem isSome_ofSeconds? {x : Binary64} (h : x.IsSeconds) :
    (ofSeconds? x).isSome = true ↔ Binary64.lt x (.ofNat secondsLimit) = true := by
  rw [ofNat_secondsLimit]
  cases x with
  | nan => cases h.finite
  | infinite negative => cases h.finite
  | finite negative units =>
      have plain : ¬ (negative = true ∧ units ≠ 0) := by
        rcases isSeconds_finite h with rfl | rfl
        · simp
        · simp
      have value : signedUnits negative units = units := by
        rcases isSeconds_finite h with rfl | rfl
        · rfl
        · cases negative
          · rfl
          · rfl
      have limit : signedUnits false (secondsLimit * unitsPerOne) = (secondsLimit * unitsPerOne : Nat) := rfl
      rw [ofSeconds?, if_neg plain, Binary64.lt, value, limit, decide_eq_true_iff, Int.ofNat_lt]
      split
      · next below => simp [below]
      · next above => simp [above]

/-- Seconds from the limit on are no span. -/
theorem ofSeconds?_eq_none_iff {x : Binary64} (h : x.IsSeconds) :
    ofSeconds? x = none ↔ le (.ofNat secondsLimit) x = true := by
  rw [← Option.not_isSome_iff_eq_none, isSome_ofSeconds? h, ofNat_secondsLimit]
  cases x with
  | nan => cases h.finite
  | infinite negative => cases h.finite
  | finite negative units => rw [lt_finite, Bool.not_eq_true, Bool.not_eq_false']

end Duration

end Intake
