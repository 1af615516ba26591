/-
Module: Intake.Proofs.Json.Numbers
Purpose: The grammar of JSON numbers, and that a number is read up to its end.
Main exports: Json.IsNumberText, Json.readNumber?_append, Json.exists_numberText

Only what follows a number tells where it ends.  What a number is worth is left to the reader; the grammar says which
texts are numbers, and that a number is worth the same whatever follows it.
-/
import Intake.Json.Reader
import Intake.Proofs.Lists
import Intake.Proofs.Number.Whole

namespace Intake

namespace Json

open Binary64 (IsNumeral signText)

/-! ### The grammar

Numbers are digits with a sign, a fraction and an exponent, each in its place. -/

/-- At least one digit. -/
structure IsDigits (s : List Char) : Prop where
  each : ∀ c ∈ s, isDigit c = true
  nonempty : s ≠ []

inductive IsFraction : List Char → Prop where
  | none : IsFraction []
  | some {digits : List Char} (h : IsDigits digits) : IsFraction ('.' :: digits)

inductive IsExponent : List Char → Prop where
  | none : IsExponent []
  | some {letter : Char} {sign digits : List Char} (named : letter = 'e' ∨ letter = 'E')
      (signed : sign = [] ∨ sign = ['+'] ∨ sign = ['-']) (h : IsDigits digits) :
      IsExponent (letter :: (sign ++ digits))

/-- A number: no plus in front, no zero in front of other digits, and digits on both sides of the point. -/
inductive IsNumberText : List Char → Prop where
  | intro (negative : Bool) {whole fraction exponent : List Char} (numeral : IsNumeral whole)
      (places : IsFraction fraction) (scaled : IsExponent exponent) :
      IsNumberText ((signText negative).toList ++ (whole ++ (fraction ++ exponent)))

/-- What may follow a number: nothing that could belong to it. -/
def Ends (rest : List Char) : Prop := ∀ c ∈ rest.head?, isDigit c = false ∧ c ≠ '.' ∧ c ≠ 'e' ∧ c ≠ 'E'

/-! ### Parts of a number

The reader goes over a number from left to right, part by part.  For each part it is shown that what is read
is such a part, and that such a part is read to its end. -/

section

variable {negative : Bool} {scan : Scan} {s rest : List Char} {n : Option Number}

/-- No further digit. -/
abbrev NoDigit (rest : List Char) : Prop := Lists.Stops isDigit rest

/-- No exponent. -/
def NoExponent (rest : List Char) : Prop := ∀ c ∈ rest.head?, c ≠ 'e' ∧ c ≠ 'E'

theorem exists_digits (s : List Char) (some : s.takeWhile isDigit ≠ []) :
    IsDigits (s.takeWhile isDigit) ∧ s = s.takeWhile isDigit ++ s.dropWhile isDigit :=
  ⟨⟨fun _ member => List.mem_takeWhile_imp member, some⟩, List.takeWhile_append_dropWhile.symm⟩

/-- The value of a number with an exponent. -/
def scaledBy (negative : Bool) (scan : Scan) (down : Bool) (digits : List Char) : Option Number :=
  let exponent := appendDigits 0 digits
  if greatestExponent < exponent then
    if !down && scan.significand != 0 then none else some (.double (.finite negative 0))
  else
    scaled? negative scan.significand
      (clampExponent (scan.exponent + (if down then -(exponent : Int) else exponent)))

/-- The sign of an exponent, and what follows it. -/
def exponentSign (s : List Char) : Bool × List Char :=
  match s with
  | '-' :: rest => (true, rest)
  | '+' :: rest => (false, rest)
  | _ => (false, s)

/-- Behind the sign of an exponent there must be digits. -/
theorem readScaled?_eq (s : List Char) : readScaled? negative scan s =
    if (exponentSign s).2.takeWhile isDigit = [] then none
    else some (scaledBy negative scan (exponentSign s).1 ((exponentSign s).2.takeWhile isDigit),
      (exponentSign s).2.dropWhile isDigit) := by
  have unfolded : readScaled? negative scan s =
      if (exponentSign s).2.takeWhile isDigit = [] then none
      else if greatestExponent < appendDigits 0 ((exponentSign s).2.takeWhile isDigit) then
        if !(exponentSign s).1 && scan.significand != 0 then some (none, (exponentSign s).2.dropWhile isDigit)
        else some (some (.double (.finite negative 0)), (exponentSign s).2.dropWhile isDigit)
      else
        some (scaled? negative scan.significand (clampExponent (scan.exponent +
          (if (exponentSign s).1 then -(appendDigits 0 ((exponentSign s).2.takeWhile isDigit) : Int)
            else appendDigits 0 ((exponentSign s).2.takeWhile isDigit)))),
          (exponentSign s).2.dropWhile isDigit) := rfl
  rw [unfolded, scaledBy]
  split_ifs <;> rfl

theorem exponentSign_append {sign digits : List Char} (signed : sign = [] ∨ sign = ['+'] ∨ sign = ['-'])
    (h : IsDigits digits) (rest : List Char) :
    exponentSign (sign ++ (digits ++ rest)) = (decide (sign = ['-']), digits ++ rest) := by
  rcases signed with rfl | rfl | rfl
  · obtain ⟨c, others, rfl⟩ := List.exists_cons_of_ne_nil h.nonempty
    have digit : isDigit c = true := h.each c List.mem_cons_self
    have minus : c ≠ '-' := ne_of_isDigit digit (by decide)
    have plus : c ≠ '+' := ne_of_isDigit digit (by decide)
    simp [exponentSign, minus, plus]
  · rfl
  · rfl

theorem exists_exponentSign (s : List Char) :
    ∃ sign, (sign = [] ∨ sign = ['+'] ∨ sign = ['-']) ∧ s = sign ++ (exponentSign s).2 := by
  rw [exponentSign.eq_def]
  split
  · exact ⟨['-'], .inr (.inr rfl), rfl⟩
  · exact ⟨['+'], .inr (.inl rfl), rfl⟩
  · exact ⟨[], .inl rfl, rfl⟩

/-- Every exponent is read up to its last digit. -/
theorem readExponent?_append (negative : Bool) (scan : Scan) {exponent : List Char} (h : IsExponent exponent) :
    ∃ n, ∀ rest, NoDigit rest → (exponent = [] → NoExponent rest) →
      readExponent? negative scan (exponent ++ rest) = some (n, rest) := by
  cases h with
  | none =>
      refine ⟨scaled? negative scan.significand scan.exponent, fun rest _ others => ?_⟩
      cases rest with
      | nil => rfl
      | cons c rest =>
          obtain ⟨small, capital⟩ := others rfl c rfl
          simp [readExponent?, small, capital]
  | @some letter sign digits named signed h =>
      refine ⟨scaledBy negative scan (decide (sign = ['-'])) digits, fun rest none _ => ?_⟩
      have read : readScaled? negative scan (sign ++ (digits ++ rest)) =
          some (scaledBy negative scan (decide (sign = ['-'])) digits, rest) := by
        rw [readScaled?_eq, exponentSign_append signed h]
        simp only [Lists.takeWhile_append_of_stops h.each none, Lists.dropWhile_append_of_stops h.each none,
          if_neg h.nonempty]
      rcases named with rfl | rfl
      · rw [List.cons_append, List.append_assoc]
        exact read
      · rw [List.cons_append, List.append_assoc]
        exact read

/-- What is read as an exponent is one. -/
theorem exists_exponent (found : readExponent? negative scan s = some (n, rest)) (none : NoDigit s) :
    ∃ exponent, s = exponent ++ rest ∧ IsExponent exponent ∧ NoDigit rest ∧
      (exponent = [] → NoExponent rest) := by
  have scaled {letter : Char} (named : letter = 'e' ∨ letter = 'E') {t : List Char}
      (found : readScaled? negative scan t = some (n, rest)) :
      ∃ exponent, letter :: t = exponent ++ rest ∧ IsExponent exponent ∧ NoDigit rest ∧
        (exponent = [] → NoExponent rest) := by
    rw [readScaled?_eq] at found
    split at found
    · cases found
    · next some =>
        obtain ⟨sign, signed, split⟩ := exists_exponentSign t
        obtain ⟨digits, behind⟩ := exists_digits _ some
        cases found
        refine ⟨letter :: (sign ++ (exponentSign t).2.takeWhile isDigit), ?_, .some named signed digits,
          Lists.stops_dropWhile isDigit _, fun none => by cases none⟩
        rw [List.cons_append, List.append_assoc, ← behind, ← split]
  rw [readExponent?.eq_def] at found
  split at found
  · exact scaled (.inl rfl) found
  · exact scaled (.inr rfl) found
  · next small capital =>
      cases found
      refine ⟨[], rfl, .none, none, fun _ c first => ?_⟩
      obtain ⟨others, rfl⟩ : ∃ others, s = c :: others := by
        cases s with
        | nil => cases first
        | cons d others => exact ⟨others, by rw [Option.some.inj first]⟩
      constructor
      · rintro rfl
        exact small _ rfl
      · rintro rfl
        exact capital _ rfl

/-- What follows a number ends it. -/
structure Follows (fraction exponent rest : List Char) : Prop where
  digit : NoDigit rest
  scaled : exponent = [] → NoExponent rest
  point : fraction = [] → exponent = [] → rest.head? ≠ some '.'

theorem IsExponent.noDigit {exponent : List Char} (h : IsExponent exponent) (none : NoDigit rest) :
    NoDigit (exponent ++ rest) := by
  cases h with
  | none => exact none
  | some named =>
      intro c first
      obtain rfl := Option.some.inj first
      rcases named with rfl | rfl <;> decide

theorem IsFraction.noDigit {fraction : List Char} (h : IsFraction fraction) (none : NoDigit rest) :
    NoDigit (fraction ++ rest) := by
  cases h with
  | none => exact none
  | some =>
      intro c first
      obtain rfl := Option.some.inj first
      decide

theorem not_padded {whole : List Char} (h : IsNumeral whole) : ¬(whole.head? = some '0' ∧ whole.length ≠ 1) := by
  rintro ⟨zero, more⟩
  exact more (by rw [h.lead zero]; rfl)

/-- Every number behind its sign is read up to its end. -/
theorem readMagnitude?_append (negative : Bool) {whole fraction exponent : List Char} (numeral : IsNumeral whole)
    (places : IsFraction fraction) (scaled : IsExponent exponent) :
    ∃ n, ∀ rest, Follows fraction exponent rest →
      readMagnitude? negative (whole ++ (fraction ++ (exponent ++ rest))) = some (n, rest) := by
  have front (rest : List Char) (follows : Follows fraction exponent rest) :
      (whole ++ (fraction ++ (exponent ++ rest))).takeWhile isDigit = whole ∧
        (whole ++ (fraction ++ (exponent ++ rest))).dropWhile isDigit = fraction ++ (exponent ++ rest) := by
    have none : NoDigit (fraction ++ (exponent ++ rest)) := places.noDigit (scaled.noDigit follows.digit)
    exact ⟨Lists.takeWhile_append_of_stops numeral.digits none, Lists.dropWhile_append_of_stops numeral.digits none⟩
  cases places with
  | @some digits h =>
      obtain ⟨n, read⟩ := readExponent?_append negative ((Scan.whole ⟨0, 0, false⟩ whole).fraction digits) scaled
      refine ⟨n, fun rest follows => ?_⟩
      obtain ⟨taken, dropped⟩ := front rest follows
      have none : NoDigit (exponent ++ rest) := scaled.noDigit follows.digit
      rw [readMagnitude?, taken, dropped]
      simp only [if_neg numeral.nonempty, if_neg (not_padded numeral), List.cons_append,
        Lists.takeWhile_append_of_stops h.each none, Lists.dropWhile_append_of_stops h.each none, if_neg h.nonempty,
        read rest follows.digit follows.scaled]
  | none =>
      obtain ⟨n, read⟩ := readExponent?_append negative (Scan.whole ⟨0, 0, false⟩ whole) scaled
      cases scaled with
      | none =>
          refine ⟨if (Scan.whole ⟨0, 0, false⟩ whole).full then n
            else some (plainNumber negative (Scan.whole ⟨0, 0, false⟩ whole).significand), fun rest follows => ?_⟩
          obtain ⟨taken, dropped⟩ := front rest follows
          have behind := read rest follows.digit follows.scaled
          have point := follows.point rfl rfl
          have scaled := follows.scaled rfl
          rw [readMagnitude?, taken, dropped]
          simp only [if_neg numeral.nonempty, if_neg (not_padded numeral), List.nil_append] at behind ⊢
          split
          · exact absurd rfl point
          · exact absurd rfl (scaled _ rfl).1
          · exact absurd rfl (scaled _ rfl).2
          · rw [behind]
            split <;> rfl
      | some named signed h =>
          refine ⟨n, fun rest follows => ?_⟩
          obtain ⟨taken, dropped⟩ := front rest follows
          have behind := read rest follows.digit follows.scaled
          rw [readMagnitude?, taken, dropped]
          simp only [if_neg numeral.nonempty, if_neg (not_padded numeral), List.nil_append] at behind ⊢
          rcases named with rfl | rfl
          · exact behind
          · exact behind

/-- What is read as a number behind its sign is one. -/
theorem exists_magnitude (found : readMagnitude? negative s = some (n, rest)) :
    ∃ whole fraction exponent, s = whole ++ (fraction ++ (exponent ++ rest)) ∧ IsNumeral whole ∧
      IsFraction fraction ∧ IsExponent exponent ∧ Follows fraction exponent rest := by
  rw [readMagnitude?] at found
  simp only at found
  split at found
  · cases found
  · next some =>
      obtain ⟨digits, split⟩ := exists_digits s some
      have behind := Lists.stops_dropWhile isDigit s
      generalize s.takeWhile isDigit = whole at *
      generalize s.dropWhile isDigit = t at *
      split at found
      · cases found
      · next unpadded =>
          have numeral : IsNumeral whole := by
            refine ⟨digits.each, digits.nonempty, fun zero => ?_⟩
            obtain ⟨c, rfl⟩ := List.length_eq_one_iff.mp (by_contra fun more => unpadded ⟨zero, more⟩)
            rw [Option.some.inj zero]
          -- without a fraction, an exponent may follow at once, or nothing that belongs to the number
          have scaled (found : readExponent? negative (Scan.whole ⟨0, 0, false⟩ whole) t = .some (n, rest))
              (point : t.head? ≠ .some '.') : ∃ whole' fraction exponent,
                s = whole' ++ (fraction ++ (exponent ++ rest)) ∧ IsNumeral whole' ∧ IsFraction fraction ∧
                  IsExponent exponent ∧ Follows fraction exponent rest := by
            obtain ⟨exponent, rfl, h, digit, others⟩ := exists_exponent found behind
            refine ⟨whole, [], exponent, split, numeral, .none, h, digit, others, ?_⟩
            rintro - rfl
            exact point
          split at found
          · next u =>
              split at found
              · cases found
              · next some =>
                  obtain ⟨places, split'⟩ := exists_digits u some
                  obtain ⟨exponent, split'', h, digit, others⟩ := exists_exponent found (Lists.stops_dropWhile isDigit u)
                  refine ⟨whole, '.' :: u.takeWhile isDigit, exponent, ?_, numeral, .some places, h, digit, others,
                    fun none => by cases none⟩
                  rw [List.cons_append, ← split'', ← split', ← split]
          · exact scaled found (by simp)
          · exact scaled found (by simp)
          · next point small capital =>
              have noPoint : t.head? ≠ .some '.' := fun first => by
                obtain ⟨u, rfl⟩ := List.head?_eq_some_iff.mp first
                exact point u rfl
              split at found
              · exact scaled found noPoint
              · cases found
                refine ⟨whole, [], [], split, numeral, .none, .none, behind, fun _ c first => ?_, fun _ _ => noPoint⟩
                obtain ⟨u, rfl⟩ := List.head?_eq_some_iff.mp first
                constructor
                · rintro rfl
                  exact small u rfl
                · rintro rfl
                  exact capital u rfl

theorem readNumber?_signed (negative : Bool) {whole : List Char} (h : IsNumeral whole) (rest : List Char) :
    readNumber? ((signText negative).toList ++ (whole ++ rest)) = readMagnitude? negative (whole ++ rest) := by
  cases negative with
  | true => rfl
  | false =>
      obtain ⟨c, others, rfl⟩ := List.exists_cons_of_ne_nil h.nonempty
      have minus : c ≠ '-' := ne_of_isDigit (h.digits c List.mem_cons_self) (by decide)
      exact readNumber?.eq_2 _ fun behind same => minus (List.cons.inj same).1

/-- A number is read up to its end, whatever ends it. -/
theorem exists_readNumber? (negative : Bool) {whole fraction exponent : List Char} (numeral : IsNumeral whole)
    (places : IsFraction fraction) (scaled : IsExponent exponent) :
    ∃ n, ∀ rest, Follows fraction exponent rest →
      readNumber? ((signText negative).toList ++ (whole ++ (fraction ++ exponent)) ++ rest) = some (n, rest) := by
  obtain ⟨n, read⟩ := readMagnitude?_append negative numeral places scaled
  refine ⟨n, fun rest follows => ?_⟩
  simp only [List.append_assoc]
  rw [readNumber?_signed negative numeral, read rest follows]

theorem follows_nil (fraction exponent : List Char) : Follows fraction exponent [] :=
  ⟨nofun, fun _ => nofun, fun _ _ => nofun⟩

theorem Ends.follows (ends : Ends rest) (fraction exponent : List Char) : Follows fraction exponent rest :=
  ⟨fun c first => (ends c first).1, fun _ c first => (ends c first).2.2, fun _ _ first => (ends '.' first).2.1 rfl⟩

/-- In front of anything that ends it a number has the value that it has alone. -/
theorem readNumber?_append {text : List Char} (h : IsNumberText text) (value : readNumber? text = some (n, []))
    (ends : Ends rest) : readNumber? (text ++ rest) = some (n, rest) := by
  cases h with
  | @intro negative whole fraction exponent numeral places scaled =>
      obtain ⟨n', read⟩ := exists_readNumber? negative numeral places scaled
      have alone := read [] (follows_nil _ _)
      rw [List.append_nil, value] at alone
      cases alone
      exact read rest (ends.follows _ _)

/-- What is read as a number is one, and has the same value alone. -/
theorem exists_numberText (found : readNumber? s = some (n, rest)) :
    ∃ text, s = text ++ rest ∧ IsNumberText text ∧ readNumber? text = some (n, []) := by
  obtain ⟨negative, whole, fraction, exponent, split, numeral, places, scaled, follows⟩ :
      ∃ negative whole fraction exponent,
        s = (signText negative).toList ++ (whole ++ (fraction ++ exponent)) ++ rest ∧ IsNumeral whole ∧
          IsFraction fraction ∧ IsExponent exponent ∧ Follows fraction exponent rest := by
    rw [readNumber?.eq_def] at found
    split at found
    · obtain ⟨whole, fraction, exponent, rfl, parts⟩ := exists_magnitude found
      exact ⟨true, whole, fraction, exponent, by simp [signText], parts⟩
    · obtain ⟨whole, fraction, exponent, split, parts⟩ := exists_magnitude found
      exact ⟨false, whole, fraction, exponent, by simp [signText, split], parts⟩
  obtain ⟨n', read⟩ := exists_readNumber? negative numeral places scaled
  have alone := read [] (follows_nil _ _)
  rw [List.append_nil] at alone
  rw [split, read rest follows] at found
  cases found
  exact ⟨_, split, .intro negative numeral places scaled, alone⟩

/-- A number begins with a minus or a digit. -/
theorem IsNumberText.starts {text : List Char} (h : IsNumberText text) :
    ∃ c others, text = c :: others ∧ (c = '-' ∨ isDigit c = true) := by
  obtain ⟨negative, numeral, -, -⟩ := h
  cases negative with
  | true => exact ⟨'-', _, rfl, .inl rfl⟩
  | false =>
      obtain ⟨c, others, rfl⟩ := List.exists_cons_of_ne_nil numeral.nonempty
      exact ⟨c, _, rfl, .inr (numeral.digits c List.mem_cons_self)⟩

end

end Json

end Intake
