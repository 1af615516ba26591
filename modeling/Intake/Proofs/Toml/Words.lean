/-
Module: Intake.Proofs.Toml.Words
Purpose: Numbers are read back from the words that are written for them.
Main exports: Toml.readWord?_integerText, Toml.readWord?_floatText, Toml.readWordValue?_of_word

A word could also be a date, a time or a number of the other kind.  Numbers as they are written have no colon, and
no minus behind their first character; a float has a point, and an integer has none.
-/
import Intake.Proofs.Lists
import Intake.Proofs.Number.Whole
import Intake.Toml.Reader
import Intake.Toml.Writer

namespace Intake

namespace Toml

open Binary64 (IsNumeral Representable overflowUnits shortest signText spanSign positional unitsPerOne)
open Decimal (toBinary64)

/-! ### Digits

Digits may be grouped by underscores in documents.  Those that are written are not. -/

/-- Nothing but digits is one group of them. -/
theorem groupedDigits?_of_digits {s : List Char} (digits : ∀ c ∈ s, isDigit c = true) (nonempty : s ≠ []) :
    groupedDigits? isDigit s = some s := by
  induction s with
  | nil => exact absurd rfl nonempty
  | cons c rest ih =>
      have own : isDigit c = true := digits c List.mem_cons_self
      cases rest with
      | nil => simp [groupedDigits?, own]
      | cons d others =>
          have next : isDigit d = true := digits d (List.mem_cons_of_mem _ List.mem_cons_self)
          have below := ih (fun e member => digits e (List.mem_cons_of_mem _ member)) (List.cons_ne_nil _ _)
          rw [groupedDigits?.eq_def]
          split
          · next none => cases none
          · next single => cases single
          · next underscore =>
              cases underscore
              exact absurd next (by decide)
          · next same =>
              cases same
              rw [if_pos own, below]
              rfl

theorem wholeDigits?_of_isNumeral {s : List Char} (numeral : IsNumeral s) : wholeDigits? s = some s := by
  have grouped := groupedDigits?_of_digits numeral.digits numeral.nonempty
  rw [wholeDigits?, grouped]
  split
  · next zero =>
      have alone := numeral.lead (by rw [Option.some.inj zero]; rfl)
      rw [alone] at zero
      cases zero
  · rfl

/-! ### Words that are no dates

Dates and numbers are both words that begin with digits.  A number as it is written is never a date, because
it has neither a colon nor a minus behind its digits. -/

/-- The characters of numbers without an exponent. -/
def IsNumberChar (c : Char) : Prop := isDigit c = true ∨ c = '.' ∨ c = '-'

/-- Words as they are written for numbers: a minus stands at most in front. -/
structure IsNumber (s : List Char) : Prop where
  chars : ∀ c ∈ s, IsNumberChar c
  minus : '-' ∉ s.tail

theorem IsNumber.not_mem {s : List Char} (number : IsNumber s) {c : Char} (digit : isDigit c = false)
    (other : c ≠ '.' ∧ c ≠ '-') : c ∉ s := by
  intro member
  rcases number.chars c member with own | point | minus
  · exact ne_of_isDigit own digit rfl
  · exact other.1 point
  · exact other.2 minus

theorem IsNumber.afterTime?_eq_none {s : List Char} (number : IsNumber s) : afterTime? s = none := by
  have colon : ':' ∉ s := number.not_mem (by decide) (by decide)
  rw [afterTime?.eq_def]
  split
  · exact absurd (by simp) colon
  · rfl

theorem IsNumber.afterDate?_eq_none {s : List Char} (number : IsNumber s) : afterDate? s = none := by
  have minus := number.minus
  rw [afterDate?.eq_def]
  split
  · exact absurd (by simp) minus
  · rfl

/-- No number is a date or a time. -/
theorem IsNumber.isDateTime_eq_false {s : List Char} (number : IsNumber s) : isDateTime s = false := by
  rw [isDateTime, number.afterDate?_eq_none]
  simp only [isTime, number.afterTime?_eq_none]

/-- A number as it is written is a float if it can be read as one, and else an integer. -/
theorem IsNumber.readWord?_eq {s : List Char} (number : IsNumber s) : readWord? s =
    match readFloat? s with
    | some x => some (.float x)
    | none => (readInteger? s).map .integer := by
  have letter (word : String) (c : Char) (member : c ∈ word.toList) (digit : isDigit c = false)
      (other : c ≠ '.' ∧ c ≠ '-') : s ≠ word.toList := by
    rintro rfl
    exact number.not_mem digit other member
  rw [readWord?, if_neg (letter "true" 't' (by decide) (by decide) (by decide)),
    if_neg (letter "false" 'f' (by decide) (by decide) (by decide)), number.isDateTime_eq_false]
  rfl

theorem IsNumber.isWordChar {s : List Char} (number : IsNumber s) : ∀ c ∈ s, isWordChar c = true := by
  intro c member
  rcases number.chars c member with digit | rfl | rfl
  · have bounds := Binary64.isDigit_bounds digit
    have alnum : c.isAlphanum = true := by
      have plain : c.isDigit = true := by
        simp only [Char.isDigit, Bool.and_eq_true, decide_eq_true_eq, ge_iff_le, UInt32.le_iff_toNat_le]
        exact bounds
      simp [Char.isAlphanum, plain]
    simp [Toml.isWordChar, alnum]
  · decide
  · decide

/-! ### Signs

A minus stands in front of a negative number, and no sign in front of any other. -/

/-- Digits and points behind a sign. -/
theorem isNumber_signed (negative : Bool) {s : List Char} (plain : ∀ c ∈ s, isDigit c = true ∨ c = '.') :
    IsNumber ((signText negative).toList ++ s) := by
  have noMinus : '-' ∉ s := by
    intro member
    rcases plain _ member with digit | point
    · exact absurd digit (by decide)
    · exact absurd point (by decide)
  cases negative with
  | true =>
      refine ⟨fun c member => ?_, noMinus⟩
      rcases List.mem_cons.mp member with minus | own
      · exact .inr (.inr minus)
      · exact (plain c own).imp_right .inl
  | false => exact ⟨fun c member => (plain c member).imp_right .inl, fun member => noMinus (List.mem_of_mem_tail member)⟩

/-! ### Integers

An integer is written as its digits and is not taken for a float, as it has no point. -/

theorem integerText_eq (n : Int) :
    integerText n = (signText (decide (n < 0))).toList ++ Nat.toDigits 10 n.natAbs := by
  rw [integerText]
  by_cases negative : n < 0
  · rw [if_pos negative, decide_eq_true negative]
    rfl
  · rw [if_neg negative, decide_eq_false negative]
    rfl

/-- Digits alone are no float. -/
theorem readFloat?_integerText (n : Int) : readFloat? (integerText n) = none := by
  obtain ⟨c, rest, split⟩ := List.exists_cons_of_ne_nil (Nat.toDigits_ne_nil (n := n.natAbs) (b := 10))
  have digits : ∀ d ∈ c :: rest, isDigit d = true := fun d member =>
    isDigit_of_mem_toDigits (split ▸ member)
  have own : isDigit c = true := digits c List.mem_cons_self
  have noWord (word : String) {first : Char} {others : List Char} (letters : word.toList = first :: others)
      (letter : isDigit first = false) : c :: rest ≠ word.toList := by
    intro same
    exact ne_of_isDigit own letter (List.cons.inj (same.trans letters)).1
  have rest' : (c :: rest).dropWhile (fun d => isDigit d || d == '_') = [] :=
    List.dropWhile_eq_nil_iff.mpr fun d member => by simp [digits d member]
  rw [integerText_eq, split, readFloat?, Binary64.spanSign_signText _ own]
  simp only [rest', if_neg (noWord "inf" rfl (by decide)), if_neg (noWord "nan" rfl (by decide))]
  split
  · next read => cases read
  · rfl

/-- An integer is written as a number. -/
theorem isNumber_integerText (n : Int) : IsNumber (integerText n) := by
  rw [integerText_eq]
  exact isNumber_signed _ fun c member => .inl (isDigit_of_mem_toDigits member)

/-- An integer of 64 binary digits is read back from its text. -/
theorem readInteger?_integerText {n : Int} (fits : bounded? n = some n) :
    readInteger? (integerText n) = some n := by
  obtain ⟨c, rest, split⟩ := List.exists_cons_of_ne_nil (Nat.toDigits_ne_nil (n := n.natAbs) (b := 10))
  have own : isDigit c = true := isDigit_of_mem_toDigits (split ▸ List.mem_cons_self)
  have value : (if decide (n < 0) then -(n.natAbs : Int) else n.natAbs) = n := by
    by_cases negative : n < 0
    · rw [if_pos (decide_eq_true negative)]
      omega
    · rw [if_neg (by simpa using negative)]
      omega
  -- no letter names another base
  have noBase (letter : Char) (digit : isDigit letter = false) (other : letter ≠ '.' ∧ letter ≠ '-')
      {behind : List Char} : integerText n ≠ '0' :: letter :: behind := fun same =>
    (isNumber_integerText n).not_mem digit other (same ▸ List.mem_cons_of_mem _ List.mem_cons_self)
  rw [readInteger?.eq_def]
  split
  · next marked => exact absurd marked (noBase 'x' (by decide) (by decide))
  · next marked => exact absurd marked (noBase 'o' (by decide) (by decide))
  · next marked => exact absurd marked (noBase 'b' (by decide) (by decide))
  · rw [integerText_eq, split, Binary64.spanSign_signText _ own, ← split]
    simp only [wholeDigits?_of_isNumeral (Binary64.isNumeral_toDigits n.natAbs), Option.bind_some,
      appendDigits_toDigits, value, fits]

/-- An integer that is written is read back as one. -/
theorem readWord?_integerText {n : Int} (fits : bounded? n = some n) :
    readWord? (integerText n) = some (.integer n) := by
  rw [(isNumber_integerText n).readWord?_eq, readFloat?_integerText, readInteger?_integerText fits]
  rfl

/-! ### Floats

A float is written with a point, so it is not taken for an integer. -/

/-- What the digits of a double read as. -/
theorem value_of_positional (negative : Bool) {units : Nat} (exact : Representable units)
    (fits : units < overflowUnits) {d : Decimal}
    (reads : Binary64.readDecimal? (positional (shortest units)) = some d) :
    toBinary64 negative d = .finite negative units := by
  obtain ⟨same, reads', value⟩ := Binary64.readDecimal?_positional (shortest units)
  obtain rfl : d = same := Option.some.inj (reads.symm.trans reads')
  rw [value, Binary64.toBinary64_signed negative (Binary64.toBinary64_shortest exact fits)]

theorem plain_shortest {units : Nat} (exact : Representable units) (fits : units < overflowUnits)
    (none : (shortest units).digits = 0) : (shortest units).exponent = 0 := by
  have reads := Binary64.toBinary64_shortest exact fits
  rw [toBinary64, if_pos none] at reads
  cases reads
  rfl

/-- A finite float is written as a sign, a numeral, a point and places behind it, and these give its value. -/
theorem exists_floatText (negative : Bool) {units : Nat} (exact : Representable units)
    (fits : units < overflowUnits) :
    ∃ whole places, floatText (.finite negative units) =
        (signText negative).toList ++ (whole ++ '.' :: places) ∧
      IsNumeral whole ∧ (∀ c ∈ places, isDigit c = true) ∧ places ≠ [] ∧
      toBinary64 negative ⟨appendDigits 0 (whole ++ places), -(places.length : Int)⟩ =
        .finite negative units := by
  have point := Binary64.exponent_shortest_nonneg_iff exact fits
  rw [floatText, Binary64.plainText, String.toList_append, String.toList_ofList, Binary64.isWhole]
  by_cases whole : unitsPerOne ∣ units
  · have numeral := Binary64.positional_of_whole (point.mpr whole) (plain_shortest exact fits)
    have value := value_of_positional negative exact fits
      (Binary64.readDecimal?_digits numeral.digits numeral.nonempty)
    have zero : ∀ c ∈ ['0'], isDigit c = true := fun c member => by
      rw [List.mem_singleton.mp member]
      decide
    refine ⟨_, ['0'], ?_, numeral, zero, List.cons_ne_nil _ _, ?_⟩
    · rw [if_pos (beq_iff_eq.mpr (Nat.mod_eq_zero_of_dvd whole)), List.append_assoc]
      rfl
    · -- one more zero is one more place
      rw [appendDigits_append, ← value, ← Decimal.toBinary64_shift negative _ 1 0]
      have one : appendDigits (appendDigits 0 (positional (shortest units))) ['0'] =
          appendDigits 0 (positional (shortest units)) * 10 ^ 1 := appendDigits_zeros _ 1
      rw [one]
      rfl
  · obtain ⟨front, places, split, numeral, digits, nonempty⟩ :=
      Binary64.positional_of_fraction (Int.not_le.mp fun nonneg => whole (point.mp nonneg))
    have reads := Binary64.readDecimal?_fraction numeral.digits digits numeral.nonempty
    rw [← split] at reads
    refine ⟨front, places, ?_, numeral, digits, nonempty, value_of_positional negative exact fits reads⟩
    rw [if_neg (fun zero => whole (Nat.dvd_of_mod_eq_zero (beq_iff_eq.mp zero))), List.append_nil, split]

section

variable {negative : Bool} {units : Nat} (exact : Representable units) (fits : units < overflowUnits)

include exact fits

/-- A float is written as a number. -/
theorem isNumber_floatText : IsNumber (floatText (.finite negative units)) := by
  obtain ⟨whole, places, split, numeral, digits, -⟩ := exists_floatText negative exact fits
  rw [split]
  refine isNumber_signed negative fun c member => ?_
  rcases List.mem_append.mp member with front | behind
  · exact .inl (numeral.digits c front)
  · exact (List.mem_cons.mp behind).symm.imp_left (digits c)

/-- A finite double is read back from its text. -/
theorem readFloat?_floatText :
    readFloat? (floatText (.finite negative units)) = some (.finite negative units) := by
  obtain ⟨whole, places, split, numeral, digits, nonempty, value⟩ :=
    exists_floatText negative exact fits
  obtain ⟨c, rest, first⟩ := List.exists_cons_of_ne_nil numeral.nonempty
  have own : isDigit c = true := numeral.digits c (first ▸ List.mem_cons_self)
  have noWord (word : String) {letter : Char} {others : List Char} (letters : word.toList = letter :: others)
      (noDigit : isDigit letter = false) : whole ++ '.' :: places ≠ word.toList := by
    rw [first, letters]
    exact fun same => ne_of_isDigit own noDigit (List.cons.inj same).1
  have inside : ∀ d ∈ whole, (isDigit d || d == '_') = true := fun d member => by
    simp [numeral.digits d member]
  have stops : Lists.Stops (fun d => isDigit d || d == '_') ('.' :: places) := Lists.stops_cons (by decide)
  have front := Lists.takeWhile_append_of_stops inside stops
  have behind := Lists.dropWhile_append_of_stops inside stops
  have noExponent : ∀ d ∈ places, (!isExponentLetter d) = true := fun d member => by
    have e := ne_of_isDigit (digits d member) (show isDigit 'e' = false by decide)
    have e' := ne_of_isDigit (digits d member) (show isDigit 'E' = false by decide)
    simp [isExponentLetter, e, e']
  have fraction : readFractionExponent? ('.' :: places) = some (places, 0) := by
    simp only [readFractionExponent?, List.dropWhile_eq_nil_iff.mpr noExponent,
      List.takeWhile_eq_self_iff.mpr noExponent, groupedDigits?_of_digits digits nonempty,
      Option.bind_some, if_true]
  have sign : spanSign ((signText negative).toList ++ (whole ++ '.' :: places)) =
      (negative, whole ++ '.' :: places) := by
    rw [first]
    exact Binary64.spanSign_signText negative own
  rw [split, readFloat?, sign]
  simp only [if_neg (noWord "inf" rfl (by decide)), if_neg (noWord "nan" rfl (by decide)), front, behind,
    wholeDigits?_of_isNumeral numeral, fraction, ← appendDigits_append, Int.zero_sub, value]
  rw [if_neg (fun same => by cases same)]

/-- A float that is written is read back as one. -/
theorem readWord?_floatText :
    readWord? (floatText (.finite negative units)) = some (.float (.finite negative units)) := by
  rw [(isNumber_floatText exact fits).readWord?_eq, readFloat?_floatText exact fits]

end

/-! ### Words in lines

A word ends at the first character that no word has, such as the end of its line. -/

/-- A word ends with its line. -/
theorem readWordValue?_of_word {word rest : List Char} {v : Toml} (chars : ∀ c ∈ word, isWordChar c = true)
    (reads : readWord? word = some v) : readWordValue? (word ++ '\n' :: rest) = some (v, '\n' :: rest) := by
  have stops : Lists.Stops isWordChar ('\n' :: rest) := Lists.stops_cons (by decide)
  simp only [readWordValue?, Lists.takeWhile_append_of_stops chars stops, Lists.dropWhile_append_of_stops chars stops,
    reads, Option.map_some]
  rfl

end Toml

end Intake
