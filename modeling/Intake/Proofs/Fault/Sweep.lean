/-
Module: Intake.Proofs.Fault.Sweep
Purpose: Sweeping a rule over a text that is put together from parts, and cutting such a text.
Main exports: Redaction.sweep_of_some, Redaction.StopsBefore, Redaction.sweepFrom_append,
  Redaction.sweep_pathRule_append, Redaction.byteLength_append, Redaction.prefix_cap
-/
import Intake.Fault.Secret

namespace Intake

namespace Redaction

/-! ### One place

What a sweep does at one place, with and without a replacement. -/

section Step

variable {rule : Rule} {c : Char} {rest replacement : List Char} {n : Nat}

/-- Where the rule does not apply, the character is copied. -/
theorem sweepFrom_of_none (passes : rule (c :: rest) = none) :
    sweepFrom rule 0 (c :: rest) = c :: sweepFrom rule 0 rest := by
  rw [sweepFrom, passes]

/-- Where it applies, the replacement is written and what it covers is left out. -/
theorem sweepFrom_of_some (applies : rule (c :: rest) = some (replacement, n)) :
    sweepFrom rule 0 (c :: rest) = replacement ++ sweepFrom rule (n - 1) rest := by
  rw [sweepFrom, applies]

theorem overhang_of_none {behind : List Char} (passes : rule (c :: (rest ++ behind)) = none) :
    overhang rule 0 (c :: rest) behind = overhang rule 0 rest behind := by
  rw [overhang, passes]

theorem overhang_of_some {behind : List Char}
    (applies : rule (c :: (rest ++ behind)) = some (replacement, n)) :
    overhang rule 0 (c :: rest) behind = overhang rule (n - 1) rest behind := by
  rw [overhang, applies]

end Step

/-! ### Texts in parts

A sweep of two texts one behind the other is a sweep of each, if what is covered in the first does not reach
into the second. -/

variable {rule : Rule}

/-- What is covered up to a place is left out, and reading goes on there. -/
theorem sweepFrom_length_append (rule : Rule) (covered rest : List Char) :
    sweepFrom rule covered.length (covered ++ rest) = sweep rule rest := by
  induction covered with
  | nil => rfl
  | cons c covered ih => rw [List.length_cons, List.cons_append, sweepFrom, ih]

/-- Where the rule applies, its replacement stands for what it covers. -/
theorem sweep_of_some {covered rest replacement : List Char} (nonempty : covered ≠ [])
    (applies : rule (covered ++ rest) = some (replacement, covered.length)) :
    sweep rule (covered ++ rest) = replacement ++ sweep rule rest := by
  obtain ⟨c, covered, rfl⟩ := List.exists_cons_of_ne_nil nonempty
  rw [List.cons_append] at applies
  rw [sweep, List.cons_append, sweepFrom_of_some applies, List.length_cons, Nat.add_sub_cancel,
    sweepFrom_length_append]

theorem overhang_of_length_le {s : List Char} {skip : Nat} (all : s.length ≤ skip)
    (behind : List Char) : overhang rule skip s behind = skip - s.length := by
  induction s generalizing skip with
  | nil => rw [overhang, List.length_nil, Nat.sub_zero]
  | cons c s ih =>
      cases skip with
      | zero => cases all
      | succ skip =>
          rw [overhang, ih (Nat.le_of_succ_le_succ all), List.length_cons, Nat.succ_sub_succ]

/-- A rule that before some text applies as if the text ended there, and covers nothing of it. -/
structure StopsBefore (rule : Rule) (behind : List Char) : Prop where
  apart : ∀ s, s ≠ [] → rule (s ++ behind) = rule s
  bounded : ∀ s replacement n, rule s = some (replacement, n) → n ≤ s.length

/-- Where the rule stops before the second text, the two are swept apart. -/
theorem sweepFrom_append {behind : List Char} (stops : StopsBefore rule behind) {s : List Char}
    {skip : Nat} (within : skip ≤ s.length) :
    sweepFrom rule skip (s ++ behind) = sweepFrom rule skip s ++ sweep rule behind := by
  induction s generalizing skip with
  | nil =>
      rw [Nat.le_zero.mp within]
      rfl
  | cons c s ih =>
      cases skip with
      | succ skip =>
          rw [List.cons_append, sweepFrom, sweepFrom, ih (Nat.le_of_succ_le_succ within)]
      | zero =>
          have apart := stops.apart (c :: s) (List.cons_ne_nil c s)
          cases here : rule (c :: s) with
          | none =>
              rw [here, List.cons_append] at apart
              rw [List.cons_append, sweepFrom_of_none apart, sweepFrom_of_none here,
                ih (Nat.zero_le _), List.cons_append]
          | some application =>
              obtain ⟨replacement, n⟩ := application
              have bounded : n - 1 ≤ s.length :=
                Nat.sub_le_of_le_add (stops.bounded _ _ _ here)
              rw [here, List.cons_append] at apart
              rw [List.cons_append, sweepFrom_of_some apart, sweepFrom_of_some here, ih bounded,
                List.append_assoc]

/-! ### Paths

White space ends every path, so a text is swept for paths piece by piece. -/

theorem isPathChar_of_blank {c : Char} (blank : isBlank c = true) : isPathChar c = false := by
  have other : ∀ d, isBlank d = false → (c == d) = false := by
    intro d solid
    rw [beq_eq_false_iff_ne]
    rintro rfl
    rw [solid] at blank
    cases blank
  obtain ⟨no_upper, no_lower, no_digit⟩ := not_alphanum_of_isBlank blank
  have neither : c.isAlphanum = false := by
    show (c.isUpper || c.isLower || c.isDigit) = false
    rw [no_upper, no_lower, no_digit]
    rfl
  rw [isPathChar, neither, other '.' (by decide), other '_' (by decide), other '/' (by decide),
    other '-' (by decide)]
  rfl

theorem takeWhile_isPathChar_append {c : Char} (blank : isBlank c = true) (s rest : List Char) :
    (s ++ c :: rest).takeWhile isPathChar = s.takeWhile isPathChar := by
  induction s with
  | nil => exact List.takeWhile_cons_of_neg (by simp [isPathChar_of_blank blank])
  | cons d s ih => rw [List.cons_append, List.takeWhile_cons, List.takeWhile_cons, ih]

/-- At a slash, the rule reads the run that begins there. -/
theorem pathRule_slash (c : Char) (rest : List Char) :
    pathRule ('/' :: c :: rest) =
      if isPathChar c && reachesCredentials (rest.takeWhile isPathChar) then
        some ("/***REDACTED***/".toList, (rest.takeWhile isPathChar).length + 2)
      else none := rfl

/-- Anywhere else it does not apply. -/
theorem pathRule_of_ne {c : Char} (other : c ≠ '/') (rest : List Char) :
    pathRule (c :: rest) = none := by
  rw [pathRule.eq_def]
  split
  · next slash =>
      injection slash with same
      exact absurd same other
  · rfl

theorem length_le_of_pathRule {s replacement : List Char} {n : Nat}
    (applies : pathRule s = some (replacement, n)) : n ≤ s.length := by
  match s, applies with
  | [], applies => cases applies
  | [c], applies =>
      by_cases slash : c = '/'
      · subst slash
        cases applies
      · rw [pathRule_of_ne slash] at applies
        cases applies
  | c :: d :: rest, applies =>
      by_cases slash : c = '/'
      · subst slash
        rw [pathRule_slash] at applies
        have length := (List.takeWhile_prefix isPathChar (l := rest)).length_le
        split at applies
        · injection applies with pair
          injection pair with _ covered
          rw [← covered, List.length_cons, List.length_cons]
          omega
        · cases applies
      · rw [pathRule_of_ne slash] at applies
        cases applies

/-- Paths end before white space. -/
theorem stopsBefore_pathRule {c : Char} (blank : isBlank c = true) (rest : List Char) :
    StopsBefore pathRule (c :: rest) where
  apart s nonempty := by
    match s, nonempty with
    | [d], _ =>
        by_cases slash : d = '/'
        · subst slash
          rw [List.singleton_append, pathRule_slash, isPathChar_of_blank blank]
          rfl
        · rw [List.singleton_append, pathRule_of_ne slash, pathRule_of_ne slash]
    | d :: e :: s, _ =>
        by_cases slash : d = '/'
        · subst slash
          rw [List.cons_append, List.cons_append, pathRule_slash, pathRule_slash,
            takeWhile_isPathChar_append blank]
        · rw [List.cons_append, pathRule_of_ne slash, pathRule_of_ne slash]
  bounded _ _ _ := length_le_of_pathRule

theorem sweep_pathRule_cons_of_ne {c : Char} (other : c ≠ '/') (rest : List Char) :
    sweep pathRule (c :: rest) = c :: sweep pathRule rest :=
  sweepFrom_of_none (pathRule_of_ne other rest)

/-- White space divides a text for paths. -/
theorem sweep_pathRule_append {s gap : List Char} (nonempty : gap ≠ [])
    (blank : ∀ c ∈ gap, isBlank c = true) (rest : List Char) :
    sweep pathRule (s ++ gap ++ rest) = sweep pathRule (s ++ gap) ++ sweep pathRule rest := by
  obtain ⟨early, c, rfl⟩ := (List.eq_nil_or_concat gap).resolve_left nonempty
  have blank_c : isBlank c = true := blank c (by simp)
  have other : c ≠ '/' := by
    rintro rfl
    exact absurd blank_c (by decide)
  have divided : ∀ rest, sweep pathRule ((s ++ early) ++ c :: rest) =
      sweep pathRule (s ++ early) ++ c :: sweep pathRule rest := by
    intro rest
    rw [← sweep_pathRule_cons_of_ne other]
    exact sweepFrom_append (stopsBefore_pathRule blank_c rest) (Nat.zero_le _)
  have joined : s ++ early.concat c ++ rest = (s ++ early) ++ c :: rest := by simp
  have alone : s ++ early.concat c = (s ++ early) ++ [c] := by simp
  rw [joined, alone, divided rest, divided [], List.append_assoc]
  rfl

/-! ### Length

The bytes of a text are those of its parts. -/

theorem byteLength_append (one two : List Char) :
    byteLength (one ++ two) = byteLength one + byteLength two := by
  induction one with
  | nil => rw [List.nil_append, byteLength, Nat.zero_add]
  | cons c one ih => rw [List.cons_append, byteLength, byteLength, ih, Nat.add_assoc]

theorem isBoundary_byteLength (s rest : List Char) :
    isBoundary (s ++ rest) (byteLength s) = true := by
  induction s with
  | nil => rw [byteLength, isBoundary]
  | cons c s ih =>
      have size : c.utf8Size = c.utf8Size - 1 + 1 := (Nat.sub_add_cancel c.utf8Size_pos).symm
      have sum : byteLength (c :: s) = (c.utf8Size - 1 + byteLength s) + 1 := by
        rw [byteLength]
        omega
      rw [sum, List.cons_append, isBoundary, ← sum, byteLength, Nat.add_sub_cancel_left, ih,
        Bool.and_true, decide_eq_true_eq]
      exact Nat.le_add_right _ _

theorem le_boundaryBelow {s : List Char} {m n : Nat} (boundary : isBoundary s m = true)
    (below : m ≤ n) : m ≤ boundaryBelow s n := by
  induction n with
  | zero => exact below
  | succ n ih =>
      rw [boundaryBelow]
      split
      · exact below
      · next other =>
          apply ih
          rcases Nat.lt_or_eq_of_le below with less | same
          · exact Nat.le_of_lt_succ less
          · exact absurd (same ▸ boundary) other

theorem prefix_takeBytes {s : List Char} {n : Nat} (fits : byteLength s ≤ n) (rest : List Char) :
    s <+: takeBytes n (s ++ rest) := by
  induction s generalizing n with
  | nil => exact List.nil_prefix
  | cons c s ih =>
      rw [byteLength] at fits
      rw [List.cons_append, takeBytes, if_pos (Nat.le_trans (Nat.le_add_right _ _) fits)]
      exact List.cons_prefix_cons.mpr ⟨rfl, ih (by omega)⟩

/-- Cutting a text keeps all that is no longer than what is left over by the mark. -/
theorem prefix_cap {s : List Char} (fits : byteLength s ≤ byteLimit - truncationMark.length)
    (rest : List Char) : s <+: cap (s ++ rest) := by
  rw [cap]
  split
  · have kept := le_boundaryBelow (isBoundary_byteLength s rest) fits
    exact (prefix_takeBytes kept rest).trans (List.prefix_append _ _)
  · exact List.prefix_append _ _

end Redaction

end Intake
