/-
Module: Intake.Proofs.Number.PlainText
Purpose: The plain text of a double reads back as that double.
Main exports: Binary64.IsDouble, Binary64.isDouble_toBinary64, Binary64.isDouble_read, Decimal.toBinary64_shift,
  Binary64.toBinary64_shortest, Binary64.readDecimal?_positional, Binary64.read_plainText

The text holds the digits of a decimal that was checked to read back, only with its point at another place.
So what has to be seen is that reading depends on the value of a decimal and not on its form, and that the
exact value, which closes the search for digits, needs no check.
-/
import Intake.Proofs.Number.Digits
import Intake.Proofs.Time.Seconds
import Intake.Text.Blank

namespace Intake

open Decimal (toBinary64)

namespace Binary64

/-! ### Doubles among all numbers

The type of numbers holds every sum of halves.  Doubles are those with few enough digits, and all that a
reader makes of a text is one of them. -/

/-- The numbers that are doubles: finite ones have at most 53 significant binary digits and are not too
large. -/
inductive IsDouble : Binary64 → Prop where
  | nan : IsDouble .nan
  | infinite (negative : Bool) : IsDouble (.infinite negative)
  | finite (negative : Bool) {units : Nat} (exact : Representable units) (fits : units < overflowUnits) :
      IsDouble (.finite negative units)

theorem isDouble_ofUnits (negative : Bool) {units : Nat} (exact : Representable units) :
    (ofUnits negative units).IsDouble := by
  by_cases fits : units < overflowUnits
  · rw [ofUnits, if_pos fits]
    exact .finite negative exact fits
  · rw [ofUnits, if_neg fits]
    exact .infinite negative

theorem isDouble_zero (negative : Bool) : (finite negative 0).IsDouble := by
  have room : 0 < overflowUnits := by
    rw [overflowUnits_eq]
    exact Nat.two_pow_pos _
  exact .finite negative (dvd_zero _) room

theorem isDouble_ofRatio (negative : Bool) (num : Nat) {den : Nat} (positive : 0 < den) :
    (ofRatio negative num den).IsDouble :=
  isDouble_ofUnits negative (representable_roundUnits positive)

theorem isDouble_ofNat (n : Nat) : (ofNat n).IsDouble := isDouble_ofRatio false n Nat.one_pos

theorem isDouble_toBinary64 (negative : Bool) (d : Decimal) : (toBinary64 negative d).IsDouble := by
  rw [toBinary64]
  split
  · exact isDouble_zero negative
  · split
    · exact .infinite negative
    · split
      · exact isDouble_zero negative
      · split
        · exact isDouble_ofRatio negative _ Nat.one_pos
        · exact isDouble_ofRatio negative _ (Nat.pow_pos (by decide))

/-- Whatever is read is a double. -/
theorem isDouble_read {s : List Char} {x : Binary64} (done : read s = .ok x) : x.IsDouble := by
  simp only [read] at done
  split at done
  · cases done
  · split at done
    · cases done
      exact .infinite _
    · split at done
      · cases done
        exact .nan
      · split at done
        · cases done
          exact isDouble_toBinary64 _ _
        · cases done

/-! ### Common factors

A quotient does not change with a factor in both numbers, and so neither does its rounding. -/

theorem roundHalfEven_mul (num den : Nat) {f : Nat} (positive : 0 < f) :
    roundHalfEven (num * f) (den * f) = roundHalfEven num den := by
  have twice (n : Nat) : 2 * (n * f) = 2 * n * f := (Nat.mul_assoc ..).symm
  simp only [roundHalfEven, Nat.mul_div_mul_right _ _ positive, Nat.mul_mod_mul_right, twice,
    Nat.mul_lt_mul_right positive]

theorem roundUnits_mul (num den : Nat) {f : Nat} (positive : 0 < f) :
    roundUnits (num * f) (den * f) = roundUnits num den := by
  have moved (s : Nat) : den * f * 2 ^ s = den * 2 ^ s * f := by ring
  simp only [roundUnits_eq, Nat.mul_div_mul_right _ _ positive, moved, roundHalfEven_mul _ _ positive]

theorem ofRatio_mul (negative : Bool) (num den : Nat) {f : Nat} (positive : 0 < f) :
    ofRatio negative (num * f) (den * f) = ofRatio negative num den := by
  have moved : num * f * unitsPerOne = num * unitsPerOne * f := by ring
  rw [ofRatio, ofRatio, moved, roundUnits_mul _ _ positive]

theorem ofRatio_congr (negative : Bool) {num den num' den' : Nat} (positive : 0 < den)
    (positive' : 0 < den') (same : num * den' = num' * den) :
    ofRatio negative num den = ofRatio negative num' den' := by
  rw [← ofRatio_mul negative num den positive', same, Nat.mul_comm den, ofRatio_mul _ _ _ positive]

end Binary64

namespace Decimal

open Binary64

/-! ### The value of a decimal

A decimal is a whole number times a power of ten.  Zeros at its end can be counted in the exponent. -/

/-- Zeros at the end of a decimal make no difference once its exponent allows for them. -/
theorem toBinary64_shift (negative : Bool) (digits k : Nat) (exponent : Int) :
    toBinary64 negative ⟨digits * 10 ^ k, exponent - k⟩ = toBinary64 negative ⟨digits, exponent⟩ := by
  have ten (n : Nat) : 0 < 10 ^ n := Nat.pow_pos (by decide)
  rcases Nat.eq_zero_or_pos digits with rfl | positive
  · simp [toBinary64]
  · have more : 0 < digits * 10 ^ k := Nat.mul_pos positive (ten k)
    have magnitude : (digitCount (digits * 10 ^ k) : Int) + (exponent - k) =
        digitCount digits + exponent := by
      rw [digitCount_mul_pow positive]
      omega
    have value : (if 0 ≤ exponent - k then
          ofRatio negative (digits * 10 ^ k * Nat.pow 10 (exponent - k).toNat) 1
        else ofRatio negative (digits * 10 ^ k) (Nat.pow 10 (-(exponent - k)).toNat)) =
        if 0 ≤ exponent then ofRatio negative (digits * Nat.pow 10 exponent.toNat) 1
        else ofRatio negative digits (Nat.pow 10 (-exponent).toNat) := by
      split
      · next within =>
          rw [if_pos (by omega : 0 ≤ exponent)]
          have split : exponent.toNat = k + (exponent - k).toNat := by omega
          rw [split]
          exact congrArg (ofRatio negative · 1) (by rw [Nat.mul_assoc]; exact congrArg _ (Nat.pow_add ..).symm)
      · next beyond =>
          split
          · next whole =>
              refine ofRatio_congr negative (ten _) Nat.one_pos ?_
              have split : k = exponent.toNat + (-(exponent - k)).toNat := by omega
              calc digits * 10 ^ k * 1 = digits * 10 ^ (exponent.toNat + (-(exponent - k)).toNat) := by
                    rw [Nat.mul_one, ← split]
                _ = digits * 10 ^ exponent.toNat * 10 ^ (-(exponent - k)).toNat := by
                    rw [Nat.pow_add, Nat.mul_assoc]
          · next fraction =>
              refine ofRatio_congr negative (ten _) (ten _) ?_
              have split : (-(exponent - k)).toNat = k + (-exponent).toNat := by omega
              calc digits * 10 ^ k * 10 ^ (-exponent).toNat
                  = digits * 10 ^ (k + (-exponent).toNat) := by rw [Nat.pow_add, Nat.mul_assoc]
                _ = digits * 10 ^ (-(exponent - k)).toNat := by rw [split]
    simp only [toBinary64, magnitude, value, if_neg positive.ne', if_neg more.ne']

theorem digitCount_le {n k : Nat} (some : 0 < k) (less : n < 10 ^ k) : digitCount n ≤ k :=
  (Nat.length_toDigits_le_iff (by decide) some).mpr less

theorem lt_digitCount {n k : Nat} (some : 0 < k) (more : 10 ^ k ≤ n) : k < digitCount n :=
  Nat.lt_of_not_le fun few =>
    Nat.not_lt.mpr more ((Nat.length_toDigits_le_iff (by decide) some).mp few)

/-- A fraction that is neither too large nor too small is a quotient. -/
theorem toBinary64_of_fraction (negative : Bool) {digits : Nat} {exponent : Int} (positive : 0 < digits)
    (low : leastMagnitude ≤ (digitCount digits : Int) + exponent)
    (high : (digitCount digits : Int) + exponent ≤ greatestMagnitude) (fraction : exponent < 0) :
    toBinary64 negative ⟨digits, exponent⟩ = ofRatio negative digits (10 ^ (-exponent).toNat) := by
  simp only [toBinary64, if_neg positive.ne', if_neg (Int.not_lt.mpr high), if_neg (Int.not_lt.mpr low),
    if_neg (Int.not_le.mpr fraction)]
  rfl

end Decimal

namespace Binary64

/-! ### The digits that are found

The shortest digits of a double are looked for on one grid after another, and each candidate is read back
before it is taken.  Where none is found, the exact value is taken. -/

theorem toBinary64_stripZeros (negative : Bool) (fuel : Nat) (d : Decimal) :
    toBinary64 negative (stripZeros fuel d) = toBinary64 negative d := by
  induction fuel generalizing d with
  | zero => rfl
  | succ fuel ih =>
      rw [stripZeros]
      split
      · next zero =>
          have whole : d.digits / 10 * 10 ^ 1 = d.digits :=
            Nat.div_mul_cancel (Nat.dvd_of_mod_eq_zero zero.2)
          have same := Decimal.toBinary64_shift negative (d.digits / 10) 1 (d.exponent + 1)
          rw [whole, Nat.cast_one, Int.add_sub_cancel] at same
          rw [ih]
          exact same.symm
      · rfl

/-- What is found on a grid was seen to read back. -/
theorem toBinary64_of_onGrid {units : Nat} {exponent : Int} {d : Decimal}
    (found : onGrid? units exponent = some d) : toBinary64 false d = .finite false units := by
  simp only [onGrid?, beq_iff_eq] at found
  split at found
  all_goals
    split at found
    · next reads =>
        cases found
        exact reads
    · split at found
      · next reads =>
          cases found
          exact reads
      · cases found

theorem five_pow_mul_two_pow (k : Nat) : 5 ^ k * 2 ^ k = 10 ^ k := (Nat.mul_pow 5 2 k).symm

theorem five_pow_bounds :
    10 ^ 674 ≤ 5 ^ fractionDigits ∧ 2 ^ (1024 + fractionDigits) * 5 ^ fractionDigits < 10 ^ 1474 := by
  decide +kernel

theorem five_pow_eq : Nat.pow 5 1074 = 5 ^ fractionDigits := by decide +kernel

/-- The exact value of a double as a decimal. -/
theorem exactDecimal_eq (units : Nat) :
    exactDecimal units = ⟨units * 5 ^ fractionDigits, -(fractionDigits : Int)⟩ := by
  rw [exactDecimal, five_pow_eq]
  rfl

/-- The exact value reads back without a check. -/
theorem toBinary64_exactDecimal {units : Nat} (positive : 0 < units) (exact : Representable units)
    (fits : units < overflowUnits) : toBinary64 false (exactDecimal units) = .finite false units := by
  obtain ⟨low, high⟩ := five_pow_bounds
  have some : 0 < units * 5 ^ fractionDigits := Nat.mul_pos positive (Nat.pow_pos (by decide))
  have least : 674 < Decimal.digitCount (units * 5 ^ fractionDigits) :=
    Decimal.lt_digitCount (by decide) (low.trans (Nat.le_mul_of_pos_left _ positive))
  have greatest : Decimal.digitCount (units * 5 ^ fractionDigits) ≤ 1474 := by
    refine Decimal.digitCount_le (by decide) (lt_of_le_of_lt ?_ high)
    rw [overflowUnits_eq] at fits
    exact Nat.mul_le_mul_right _ fits.le
  have places : (fractionDigits : Int) = 1074 := rfl
  have rounded : roundUnits (units * 5 ^ fractionDigits * unitsPerOne) (10 ^ fractionDigits) = units := by
    rw [Nat.mul_assoc, unitsPerOne_eq, five_pow_mul_two_pow]
    exact roundUnits_of_representable (Nat.pow_pos (by decide)) exact
  calc toBinary64 false (exactDecimal units)
      = ofRatio false (units * 5 ^ fractionDigits) (10 ^ fractionDigits) := by
        rw [exactDecimal_eq, Decimal.toBinary64_of_fraction false some ?_ ?_ (by decide), Int.neg_neg,
          Int.toNat_natCast]
        · rw [Decimal.leastMagnitude]
          omega
        · rw [Decimal.greatestMagnitude]
          omega
    _ = .finite false units := by rw [ofRatio, rounded, ofUnits, if_pos fits]

/-- The digits of a double read back as that double. -/
theorem toBinary64_shortest {units : Nat} (exact : Representable units) (fits : units < overflowUnits) :
    toBinary64 false (shortest units) = .finite false units := by
  rcases Nat.eq_zero_or_pos units with rfl | positive
  · rfl
  · rw [shortest, if_neg positive.ne', toBinary64_stripZeros]
    cases search : (List.range 17).findSome? fun n =>
        onGrid? units (decimalPoint units - (n + 1 : Nat)) with
    | none => exact toBinary64_exactDecimal positive exact fits
    | some d =>
        obtain ⟨n, -, found⟩ := List.exists_of_findSome?_eq_some search
        exact toBinary64_of_onGrid found

theorem ofUnits_signed (negative : Bool) {found units : Nat}
    (plain : ofUnits false found = .finite false units) :
    ofUnits negative found = .finite negative units := by
  by_cases fits : found < overflowUnits
  · rw [ofUnits, if_pos fits] at plain ⊢
    cases plain
    rfl
  · rw [ofUnits, if_neg fits] at plain
    cases plain

/-- The sign is kept apart from the magnitude. -/
theorem toBinary64_signed (negative : Bool) {d : Decimal} {units : Nat}
    (plain : toBinary64 false d = .finite false units) :
    toBinary64 negative d = .finite negative units := by
  rw [toBinary64] at plain ⊢
  split at plain
  · next none =>
      cases plain
      rw [if_pos none]
  · next some =>
      rw [if_neg some]
      split at plain
      · cases plain
      · next low =>
          rw [if_neg low]
          split at plain
          · next vanishes =>
              cases plain
              rw [if_pos vanishes]
          · next high =>
              rw [if_neg high]
              split at plain
              · next whole =>
                  rw [if_pos whole]
                  exact ofUnits_signed negative plain
              · next fraction =>
                  rw [if_neg fraction]
                  exact ofUnits_signed negative plain

/-! ### Reading texts without an exponent

A text of digits with a point in it is read as a decimal, with as many places as digits behind the point. -/

theorem isDigit_bounds {c : Char} (digit : isDigit c = true) : 48 ≤ c.toNat ∧ c.toNat ≤ 57 := by
  rw [isDigit, digitValue?] at digit
  split at digit
  · next bounds => exact bounds
  · cases digit

theorem spanDigits_digits {digits : List Char} (rest : List Char) (all : ∀ c ∈ digits, isDigit c = true)
    (ends : ∀ c ∈ rest.head?, isDigit c = false) : spanDigits (digits ++ rest) = (digits, rest) := by
  induction digits with
  | nil =>
      cases rest with
      | nil => rfl
      | cons c rest => simp [spanDigits, ends c rfl]
  | cons c digits ih =>
      have own := all c List.mem_cons_self
      have below := ih fun c member => all c (List.mem_cons_of_mem _ member)
      simp only [spanDigits, Prod.mk.injEq] at below
      simp [spanDigits, own, below]

theorem readDecimal?_digits {digits : List Char} (all : ∀ c ∈ digits, isDigit c = true)
    (some : digits ≠ []) : readDecimal? digits = .some ⟨appendDigits 0 digits, 0⟩ := by
  have whole := spanDigits_digits [] all (by simp)
  rw [List.append_nil] at whole
  simp [readDecimal?, whole, some, readExponent?, appendDigits]

theorem readDecimal?_fraction {digits places : List Char} (all : ∀ c ∈ digits, isDigit c = true)
    (all' : ∀ c ∈ places, isDigit c = true) (some : digits ≠ []) :
    readDecimal? (digits ++ '.' :: places) =
      .some ⟨appendDigits 0 (digits ++ places), -(places.length : Int)⟩ := by
  have point : isDigit '.' = false := by decide
  have whole := spanDigits_digits ('.' :: places) all (by simp [point])
  have rest := spanDigits_digits [] all' (by simp)
  rw [List.append_nil] at rest
  simp [readDecimal?, whole, rest, some, readExponent?, appendDigits_append]

theorem isDigit_zero_of_mem {k : Nat} {c : Char} (member : c ∈ List.replicate k '0') :
    isDigit c = true := by
  rw [List.eq_of_mem_replicate member]
  decide

/-- The text of a decimal without an exponent is that of a decimal with the same value. -/
theorem readDecimal?_positional (d : Decimal) : ∃ same, readDecimal? (positional d) = some same ∧
    ∀ negative, toBinary64 negative same = toBinary64 negative d := by
  obtain ⟨n, exponent⟩ := d
  have digits : ∀ c ∈ Nat.toDigits 10 n, isDigit c = true := fun _ => isDigit_of_mem_toDigits
  have some : 0 < (Nat.toDigits 10 n).length := Nat.length_toDigits_pos
  rw [positional]
  simp only
  split
  · next whole =>
      have all : ∀ c ∈ Nat.toDigits 10 n ++ List.replicate exponent.toNat '0', isDigit c = true := by
        intro c member
        rcases List.mem_append.mp member with own | zero
        · exact digits c own
        · exact isDigit_zero_of_mem zero
      refine ⟨_, readDecimal?_digits all (by simp [Nat.toDigits_ne_nil]), fun negative => ?_⟩
      rw [appendDigits_append, appendDigits_toDigits, appendDigits_zeros]
      have same := Decimal.toBinary64_shift negative n exponent.toNat exponent
      rwa [Int.toNat_of_nonneg whole, Int.sub_self] at same
  · next fraction =>
      have places : (((-exponent).toNat : Nat) : Int) = -exponent := by omega
      split
      · next within =>
          refine ⟨⟨n, exponent⟩, ?_, fun _ => rfl⟩
          have front : (Nat.toDigits 10 n).take ((Nat.toDigits 10 n).length - (-exponent).toNat) ≠ [] := by
            refine List.ne_nil_of_length_pos ?_
            rw [List.length_take]
            omega
          rw [readDecimal?_fraction (fun c member => digits c (List.mem_of_mem_take member))
            (fun c member => digits c (List.mem_of_mem_drop member)) front, List.take_append_drop,
            appendDigits_toDigits, List.length_drop]
          congr 2
          omega
      · next beyond =>
          refine ⟨⟨n, exponent⟩, ?_, fun _ => rfl⟩
          have all : ∀ c ∈ List.replicate ((-exponent).toNat - (Nat.toDigits 10 n).length) '0' ++
              Nat.toDigits 10 n, isDigit c = true := by
            intro c member
            rcases List.mem_append.mp member with zero | own
            · exact isDigit_zero_of_mem zero
            · exact digits c own
          have front : ∀ c ∈ ['0'], isDigit c = true := fun c member =>
            isDigit_zero_of_mem (List.mem_replicate.mpr ⟨Nat.one_ne_zero, List.mem_singleton.mp member⟩)
          have read := readDecimal?_fraction front all (by decide)
          rw [appendDigits_append, appendDigits_append, appendDigits_zeros] at read
          refine Eq.trans read ?_
          have zero : appendDigits 0 ['0'] = 0 := by decide
          rw [zero, Nat.zero_mul, appendDigits_toDigits, List.length_append, List.length_replicate]
          congr 2
          omega

/-! ### The characters of a plain text

A plain text has digits, a point and a sign in it, so it is never taken for a word. -/

/-- A text without an exponent is made of digits and a point. -/
theorem mem_positional {d : Decimal} {c : Char} (member : c ∈ positional d) :
    isDigit c = true ∨ c = '.' := by
  have digits {c : Char} (own : c ∈ Nat.toDigits 10 d.digits) : isDigit c = true ∨ c = '.' :=
    .inl (isDigit_of_mem_toDigits own)
  have zeros {k : Nat} {c : Char} (zero : c ∈ List.replicate k '0') : isDigit c = true ∨ c = '.' :=
    .inl (isDigit_zero_of_mem zero)
  rw [positional] at member
  simp only at member
  split at member
  · exact (List.mem_append.mp member).elim digits zeros
  · split at member
    · rcases List.mem_append.mp member with front | back
      · exact digits (List.mem_of_mem_take front)
      · rcases List.mem_cons.mp back with point | place
        · exact .inr point
        · exact digits (List.mem_of_mem_drop place)
    · rcases List.mem_cons.mp member with zero | back
      · exact .inl (by rw [zero]; decide)
      · rcases List.mem_cons.mp back with point | place
        · exact .inr point
        · exact (List.mem_append.mp place).elim zeros digits

/-- A digit stands in front. -/
theorem exists_head_positional (d : Decimal) :
    ∃ c rest, positional d = c :: rest ∧ isDigit c = true := by
  obtain ⟨c, rest, split⟩ : ∃ c rest, Nat.toDigits 10 d.digits = c :: rest :=
    List.exists_cons_of_ne_nil Nat.toDigits_ne_nil
  have digit : isDigit c = true := isDigit_of_mem_toDigits (split ▸ List.mem_cons_self)
  rw [positional, split]
  simp only
  split
  · exact ⟨c, _, rfl, digit⟩
  · split
    · next within =>
        obtain ⟨front, more⟩ : ∃ front, (c :: rest).length - (-d.exponent).toNat = front + 1 :=
          Nat.exists_eq_add_one.mpr (by omega)
        rw [more, List.take_succ_cons]
        exact ⟨c, _, rfl, digit⟩
    · exact ⟨'0', _, rfl, by decide⟩

theorem not_isBlank {c : Char} (plain : isDigit c = true ∨ c = '.' ∨ c = '-') : isBlank c = false := by
  rcases plain with digit | rfl | rfl
  · have bounds := isDigit_bounds digit
    simp only [isBlank, Bool.or_eq_false_iff, Bool.and_eq_false_iff, decide_eq_false_iff_not,
      beq_eq_false_iff_ne]
    omega
  · decide
  · decide

theorem toLower_of_isDigit {c : Char} (digit : isDigit c = true) : c.toLower = c := by
  have bounds := isDigit_bounds digit
  refine dif_neg fun upper => ?_
  have low : 65 ≤ c.toNat := upper.1
  omega

/-! ### Plain texts

Sign and digits are put together, and read back one after the other. -/

/-- A sign in front of a digit is told from it. -/
theorem spanSign_signText (negative : Bool) {c : Char} {rest : List Char} (digit : isDigit c = true) :
    spanSign ((signText negative).toList ++ c :: rest) = (negative, c :: rest) := by
  have bounds := isDigit_bounds digit
  cases negative with
  | true => rfl
  | false =>
      show spanSign (c :: rest) = _
      rw [spanSign.eq_def]
      split
      · next same =>
          obtain rfl := (List.cons.inj same).1
          exact absurd bounds (by decide)
      · next same =>
          obtain rfl := (List.cons.inj same).1
          exact absurd bounds (by decide)
      · rfl

/-- A text with a digit in front is no word. -/
theorem read_digits (negative : Bool) {c : Char} {rest : List Char} (digit : isDigit c = true) {d : Decimal}
    (reads : readDecimal? (c :: rest) = some d) :
    read ((signText negative).toList ++ c :: rest) = .ok (toBinary64 negative d) := by
  have bounds := isDigit_bounds digit
  have noWord (word : String) {first : Char} {others : List Char} (letters : word.toList = first :: others)
      (letter : 57 < first.toNat) : asciiLower (c :: rest) ≠ word.toList := by
    intro same
    have own : c.toLower = first := (List.cons.inj (same.trans letters)).1
    rw [← own, toLower_of_isDigit digit] at letter
    omega
  rw [read, if_neg (by simp), spanSign_signText negative digit]
  simp only
  rw [if_neg, if_neg (noWord "nan" rfl (by decide)), reads]
  rintro (word | word)
  · exact noWord "inf" rfl (by decide) word
  · exact noWord "infinity" rfl (by decide) word

/-- The plain text of a finite double reads back as that double. -/
theorem read_plainText {negative : Bool} {units : Nat} (double : (finite negative units).IsDouble) :
    read (finite negative units).plainText.toList = .ok (finite negative units) := by
  cases double with
  | finite _ exact fits =>
      obtain ⟨c, rest, split, digit⟩ := exists_head_positional (shortest units)
      obtain ⟨d, reads, same⟩ := readDecimal?_positional (shortest units)
      rw [split] at reads
      have value := toBinary64_signed negative (toBinary64_shortest exact fits)
      rw [plainText, String.toList_append, String.toList_ofList, split, read_digits negative digit reads,
        same, value]

/-- There is no white space in it. -/
theorem not_isBlank_plainText {negative : Bool} {units : Nat} :
    ∀ c ∈ (finite negative units).plainText.toList, isBlank c = false := by
  intro c member
  rw [plainText, String.toList_append, String.toList_ofList, List.mem_append] at member
  rcases member with sign | magnitude
  · cases negative with
    | true =>
        have minus : c = '-' := by simpa [signText] using sign
        exact not_isBlank (.inr (.inr minus))
    | false =>
        have none : c ∈ [] := sign
        cases none
  · exact not_isBlank ((mem_positional magnitude).imp_right .inl)

end Binary64

end Intake
