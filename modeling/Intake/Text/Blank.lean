/-
Module: Intake.Text.Blank
Purpose: White space as the Unicode property of that name, and trimming by it.
Main exports: isBlank, trimChars, trim, asciiEqIgnoreCase, trimChars_eq_nil_iff
-/

namespace Intake

/-- The characters of the Unicode property White_Space. -/
def isBlank (c : Char) : Bool :=
  let n := c.toNat
  (9 ≤ n && n ≤ 13) || n == 0x20 || n == 0x85 || n == 0xA0 || n == 0x1680 ||
    (0x2000 ≤ n && n ≤ 0x200A) || n == 0x2028 || n == 0x2029 || n == 0x202F || n == 0x205F ||
    n == 0x3000

/-- Without the characters of a class at the end. -/
def dropEndWhile (p : Char → Bool) : List Char → List Char
  | [] => []
  | c :: rest =>
    match dropEndWhile p rest with
    | [] => if p c then [] else [c]
    | kept => c :: kept

/-- Without white space at either end. -/
def trimChars (s : List Char) : List Char := dropEndWhile isBlank (s.dropWhile isBlank)

def trim (s : String) : String := String.ofList (trimChars s.toList)

/-- Equality up to the case of ASCII letters. -/
def asciiEqIgnoreCase (s t : String) : Bool :=
  s.toList.map Char.toLower == t.toList.map Char.toLower

theorem dropEndWhile_eq_nil_iff {p : Char → Bool} {s : List Char} :
    dropEndWhile p s = [] ↔ ∀ c ∈ s, p c = true := by
  induction s with
  | nil => simp [dropEndWhile]
  | cons c rest ih =>
      rw [dropEndWhile, List.forall_mem_cons, ← ih]
      split
      · next none => simp [none]
      · next some =>
          refine iff_of_false (List.cons_ne_nil _ _) fun all => ?_
          exact some all.2

/-- Nothing is left of white space, and of nothing else. -/
theorem trimChars_eq_nil_iff {s : List Char} : trimChars s = [] ↔ ∀ c ∈ s, isBlank c = true := by
  induction s with
  | nil => simp [trimChars, dropEndWhile]
  | cons c rest ih =>
      rw [List.forall_mem_cons]
      cases blank : isBlank c with
      | true =>
          have dropped : trimChars (c :: rest) = trimChars rest := by
            rw [trimChars, List.dropWhile_cons, if_pos blank, trimChars]
          rw [dropped, ih]
          simp
      | false =>
          rw [trimChars, List.dropWhile_cons, if_neg (by simp [blank]), dropEndWhile_eq_nil_iff,
            List.forall_mem_cons, blank]

/-- White space is neither a letter nor a digit. -/
theorem not_alphanum_of_isBlank {c : Char} (h : isBlank c = true) :
    c.isUpper = false ∧ c.isLower = false ∧ c.isDigit = false := by
  have number : ¬ (65 ≤ c.toNat ∧ c.toNat ≤ 90) ∧ ¬ (97 ≤ c.toNat ∧ c.toNat ≤ 122) ∧
      ¬ (48 ≤ c.toNat ∧ c.toNat ≤ 57) := by
    simp only [isBlank, Bool.or_eq_true, Bool.and_eq_true, decide_eq_true_eq, beq_iff_eq] at h
    omega
  obtain ⟨no_upper, no_lower, no_digit⟩ := number
  refine ⟨decide_eq_false no_upper, ?_, ?_⟩
  · exact (Bool.decide_and _ _).symm.trans (decide_eq_false no_lower)
  · exact (Bool.decide_and _ _).symm.trans (decide_eq_false no_digit)

end Intake
