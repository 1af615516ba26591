/-
Module: Intake.Proofs.Fault.Secrecy
Purpose: Which announced secrets leave no trace in a sanitized text, and what becomes of the others.
Main exports: Redaction.Announcement.sweepFrom_before, Redaction.Announcement.sweep_text_of_kept,
  Redaction.Announcement.redact_text_of_swallowed, Redaction.value_hidden_unless_swallowed,
  Redaction.keyBeforePassword, Redaction.swallowed_password_is_reported

Reading goes from left to right, and a value is everything up to the next white space.  So a value that
begins in the text before an announcement can be the announcing word itself: of two announcements
without white space between them only the first is read.  Where white space follows the second, the
value behind it is then a word like any other.
-/
import Intake.Proofs.Fault.Reading
import Intake.Proofs.Fault.Sweep

namespace Intake

namespace Redaction

/-- White space stays as it is. -/
theorem sweep_secretRule_blank {gap : List Char} (blank : ∀ c ∈ gap, isBlank c = true)
    (rest : List Char) : sweep secretRule (gap ++ rest) = gap ++ sweep secretRule rest := by
  induction gap with
  | nil => rfl
  | cons c gap ih =>
      have other := isLower_fold_of_blank (blank c List.mem_cons_self)
      rw [List.cons_append, sweep, sweepFrom_of_none (secretRule_cons_eq_none other _), ← sweep,
        ih fun d member => blank d (List.mem_cons_of_mem c member), List.cons_append]

namespace Announcement

variable (a : Announcement)

/-! ### The text before

In front of an announcement a value may begin that reaches over the announcing word.  Then this word is not
read, and the announcement is swallowed. -/

section Across

variable {c : Char} {before replacement : List Char}
  (read : ∀ rest, secretRule (c :: before ++ (a.head ++ rest)) =
    some (replacement,
      (c :: before).length + a.head.length + (rest.takeWhile (!isBlank ·)).length))
include read

/-- A value that reaches over the announcing word ends at the next white space. -/
theorem sweep_across (rest : List Char) :
    sweep secretRule (c :: before ++ (a.head ++ rest)) =
      replacement ++ sweep secretRule (rest.dropWhile (!isBlank ·)) := by
  have split : c :: before ++ (a.head ++ rest) =
      (c :: before ++ (a.head ++ rest.takeWhile (!isBlank ·))) ++ rest.dropWhile (!isBlank ·) := by
    rw [List.append_assoc, List.append_assoc, List.takeWhile_append_dropWhile]
  have applies := read rest
  rw [Nat.add_assoc, ← List.length_append, ← List.length_append, split] at applies
  rw [split]
  exact sweep_of_some (by simp) applies

theorem overhang_across : overhang secretRule 0 (c :: before) a.head ≠ 0 := by
  have alone := read []
  rw [List.append_nil, List.cons_append] at alone
  have length : 0 < a.head.length := by simp [head]
  rw [overhang_of_some alone, List.takeWhile_nil, List.length_nil, List.length_cons,
    overhang_of_length_le (by omega)]
  omega

end Across

/-- What is written for the text before does not depend on what follows the separator.  Then reading goes on
at the announcing word, or, where a value reached over it, at the end of that value. -/
theorem sweepFrom_before {before : List Char} {skip : Nat} (within : skip ≤ before.length) :
    ∃ written, ∀ rest, sweepFrom secretRule skip (before ++ (a.head ++ rest)) =
      written ++ sweep secretRule
        (if overhang secretRule skip before a.head = 0 then a.head ++ rest
          else rest.dropWhile (!isBlank ·)) := by
  induction before generalizing skip with
  | nil =>
      refine ⟨[], fun rest => ?_⟩
      rw [overhang, if_pos (Nat.le_zero.mp within), Nat.le_zero.mp within]
      rfl
  | cons c before ih =>
      cases skip with
      | succ skip =>
          obtain ⟨written, sweeps⟩ := ih (Nat.le_of_succ_le_succ within)
          refine ⟨written, fun rest => ?_⟩
          rw [List.cons_append, sweepFrom, overhang]
          exact sweeps rest
      | zero =>
          cases a.reading (List.cons_ne_nil c before) with
          | passes none_read =>
              simp only [List.cons_append] at none_read
              obtain ⟨written, sweeps⟩ := ih (Nat.zero_le _)
              refine ⟨c :: written, fun rest => ?_⟩
              have alone := none_read []
              rw [List.append_nil] at alone
              rw [List.cons_append, sweepFrom_of_none (none_read rest), overhang_of_none alone,
                sweeps rest, List.cons_append]
          | @within replacement n short read =>
              simp only [List.cons_append] at read
              obtain ⟨written, sweeps⟩ := ih (Nat.sub_le_of_le_add short)
              refine ⟨replacement ++ written, fun rest => ?_⟩
              have alone := read []
              rw [List.append_nil] at alone
              rw [List.cons_append, sweepFrom_of_some (read rest), overhang_of_some alone,
                sweeps rest, List.append_assoc]
          | @across replacement read =>
              refine ⟨replacement, fun rest => ?_⟩
              rw [if_neg (a.overhang_across read)]
              exact a.sweep_across read rest

/-- The text of an announcement, swept. -/
theorem sweep_lead_append :
    ∃ written, ∀ rest, sweep secretRule (a.lead ++ rest) =
      written ++ sweep secretRule
        (if overhang secretRule 0 a.before a.head = 0 then a.head ++ (a.gap ++ rest)
          else (a.gap ++ rest).dropWhile (!isBlank ·)) := by
  obtain ⟨written, sweeps⟩ := a.sweepFrom_before (Nat.zero_le a.before.length)
  refine ⟨written, fun rest => ?_⟩
  rw [lead, List.append_assoc, List.append_assoc]
  exact sweeps (a.gap ++ rest)

/-! ### The value

Where the announcing word is read, its value is replaced and no matter what it was, the same is written. -/

/-- Where the announcing word is read, the value is replaced. -/
theorem sweep_head_append {value : List Char} (isValue : IsValue value) :
    sweep secretRule (a.head ++ (a.gap ++ (value ++ a.after))) =
      a.word ++ "=***".toList ++ sweep secretRule a.after := by
  have applies : secretRule (a.head ++ (a.gap ++ (value ++ a.after))) =
      some (a.word ++ "=***".toList, (a.head ++ (a.gap ++ value)).length) := by
    rw [a.secretRule_head, valueLength?_of_run a.blank_gap isValue a.ends, Option.map_some,
      List.length_append, List.length_append]
  have split : a.head ++ (a.gap ++ (value ++ a.after)) =
      (a.head ++ (a.gap ++ value)) ++ a.after := by
    rw [List.append_assoc, List.append_assoc]
  rw [split] at applies ⊢
  exact sweep_of_some (by simp [head]) applies

/-- Where a value reached over the announcing word and no white space follows it, that value goes on to the
end of the other. -/
theorem dropWhile_append_after {value : List Char} (isValue : IsValue value) :
    (value ++ a.after).dropWhile (!isBlank ·) = a.after := by
  rw [List.dropWhile_append_of_pos (by simpa using isValue.2), dropWhile_of_ends a.ends]

/-- Unless the announcement is swallowed, what is written does not depend on the value. -/
theorem sweep_text_of_kept (kept : ¬ a.IsSwallowed) :
    ∃ written, ∀ value, IsValue value → sweep secretRule (a.text value) = written := by
  obtain ⟨written, sweeps⟩ := a.sweep_lead_append
  by_cases read : overhang secretRule 0 a.before a.head = 0
  · refine ⟨written ++ (a.word ++ "=***".toList ++ sweep secretRule a.after),
      fun value isValue => ?_⟩
    rw [text, sweeps, if_pos read, a.sweep_head_append isValue]
  · have none_between : a.gap = [] := by
      by_contra gap
      exact kept ⟨gap, read⟩
    refine ⟨written ++ sweep secretRule a.after, fun value isValue => ?_⟩
    rw [text, sweeps, if_neg read, none_between, List.nil_append, a.dropWhile_append_after isValue]

/-- If the announcement is swallowed, then white space divides what is written: the value is read as if the
text began with it. -/
theorem sweep_text_of_swallowed (swallowed : a.IsSwallowed) :
    ∃ written, ∀ rest, sweep secretRule (a.lead ++ rest) =
      written ++ a.gap ++ sweep secretRule rest := by
  obtain ⟨gap, read⟩ := swallowed
  obtain ⟨written, sweeps⟩ := a.sweep_lead_append
  refine ⟨written, fun rest => ?_⟩
  have stays : (a.gap ++ rest).dropWhile (!isBlank ·) = a.gap ++ rest := by
    obtain ⟨c, others, same⟩ := List.exists_cons_of_ne_nil gap
    have blank : isBlank c = true := a.blank_gap c (same ▸ List.mem_cons_self)
    apply dropWhile_of_ends
    rw [same]
    exact blank
  rw [sweeps, if_neg read, stays, sweep_secretRule_blank a.blank_gap, List.append_assoc]

/-- The value of a swallowed announcement is kept. -/
theorem redact_text_of_swallowed (swallowed : a.IsSwallowed) (value : List Char) :
    redact (a.text value) = redact a.lead ++ redact (value ++ a.after) := by
  obtain ⟨written, sweeps⟩ := a.sweep_text_of_swallowed swallowed
  have alone : sweep secretRule a.lead = written ++ a.gap := by
    simpa [sweep, sweepFrom] using sweeps []
  rw [redact, redact, redact, text, sweeps, sweep, alone]
  exact sweep_pathRule_append swallowed.1 a.blank_gap _

end Announcement

/-! ### What is reported

Two values are told apart in a report only if their announcement is swallowed. -/

theorem sanitize_ofList (s : List Char) :
    sanitize (String.ofList s) = String.ofList (sanitizeChars s) := by
  rw [sanitize, String.toList_ofList]

/-- A character that begins neither a word of the rule nor a path stays as it is. -/
theorem redact_cons {c : Char} (other : (fold c).isLower = false) (no_slash : c ≠ '/')
    (rest : List Char) : redact (c :: rest) = c :: redact rest := by
  have swept : sweep secretRule (c :: rest) = c :: sweep secretRule rest :=
    sweepFrom_of_none (secretRule_cons_eq_none other rest)
  rw [redact, swept, sweep_pathRule_cons_of_ne no_slash, ← redact]

namespace Announcement

variable {a : Announcement}

/-- Whatever value is announced, the same is reported. -/
theorem sanitize_text_of_kept (kept : ¬ a.IsSwallowed) {one two : List Char} (isValue : IsValue one)
    (isOther : IsValue two) :
    sanitize (String.ofList (a.text one)) = sanitize (String.ofList (a.text two)) := by
  obtain ⟨written, sweeps⟩ := a.sweep_text_of_kept kept
  rw [sanitize_ofList, sanitize_ofList, sanitizeChars, sanitizeChars, redact, redact,
    sweeps one isValue, sweeps two isOther]

/-- A digit behind a swallowed announcement is reported, if the text before it is not too long. -/
theorem prefix_sanitizeChars_of_swallowed (swallowed : a.IsSwallowed)
    (near : byteLength (redact a.lead) < byteLimit - truncationMark.length) {c : Char}
    (other : (fold c).isLower = false) (no_slash : c ≠ '/') (small : c.utf8Size = 1) :
    redact a.lead ++ [c] <+: sanitizeChars (a.text [c]) := by
  have fits : byteLength (redact a.lead ++ [c]) ≤ byteLimit - truncationMark.length := by
    rw [byteLength_append, byteLength, byteLength, small]
    exact near
  have written : redact (a.text [c]) = redact a.lead ++ [c] ++ redact a.after := by
    rw [a.redact_text_of_swallowed swallowed, List.singleton_append, redact_cons other no_slash,
      List.append_assoc, List.singleton_append]
  rw [sanitizeChars, written]
  exact prefix_cap fits _

/-- Two values of a swallowed announcement are told apart. -/
theorem sanitize_text_ne_of_swallowed (swallowed : a.IsSwallowed)
    (near : byteLength (redact a.lead) < byteLimit - truncationMark.length) :
    sanitize (String.ofList (a.text ['0'])) ≠ sanitize (String.ofList (a.text ['1'])) := by
  rw [sanitize_ofList, sanitize_ofList]
  intro same
  have zero := prefix_sanitizeChars_of_swallowed swallowed near (c := '0') (by decide) (by decide)
    (by decide)
  have one := prefix_sanitizeChars_of_swallowed swallowed near (c := '1') (by decide) (by decide)
    (by decide)
  rw [String.ofList_injective same] at zero
  have texts : redact a.lead ++ ['0'] = redact a.lead ++ ['1'] :=
    (List.prefix_of_prefix_length_le zero one (by simp)).eq_of_length (by simp)
  exact absurd (List.append_cancel_left texts) (by decide)

end Announcement

/-- A text made safe is the same whatever the value of an announced secret, unless the announcement is
swallowed: unless an earlier value reaches over the announcing word and the separator and white space
follows.  In this case the value is treated as if the text began with it, and another value leads to
another text made safe, provided that what stands before it is not long enough to be all that is kept. -/
theorem value_hidden_unless_swallowed (a : Announcement) :
    (¬ a.IsSwallowed → ∀ one two, IsValue one → IsValue two →
        sanitize (String.ofList (a.text one)) = sanitize (String.ofList (a.text two))) ∧
      (a.IsSwallowed →
        (∀ value, redact (a.text value) = redact a.lead ++ redact (value ++ a.after)) ∧
          (byteLength (redact a.lead) < byteLimit - truncationMark.length →
            ∃ one two, IsValue one ∧ IsValue two ∧
              sanitize (String.ofList (a.text one)) ≠ sanitize (String.ofList (a.text two)))) := by
  constructor
  · intro kept one two isValue isOther
    exact Announcement.sanitize_text_of_kept kept isValue isOther
  · intro swallowed
    refine ⟨a.redact_text_of_swallowed swallowed, fun near => ?_⟩
    exact ⟨['0'], ['1'], by decide, by decide, Announcement.sanitize_text_ne_of_swallowed swallowed near⟩

/-- A password, announced where a key is expected. -/
def keyBeforePassword : Announcement where
  before := "key=".toList
  word := "password".toList
  separator := ':'
  gap := [' ']
  after := []
  announces := by decide
  separates := by decide
  blank_gap := List.forall_mem_singleton.mpr (by decide)
  ends := by decide

/-- The password is reported. -/
theorem swallowed_password_is_reported :
    keyBeforePassword.text "hunter2".toList = "key=password: hunter2".toList ∧
      sanitize "key=password: hunter2" = "key=*** hunter2" ∧
      sanitize "key=password: swordfish" = "key=*** swordfish" ∧
      ¬ ∀ a : Announcement, ∀ one two, IsValue one → IsValue two →
        sanitize (String.ofList (a.text one)) = sanitize (String.ofList (a.text two)) := by
  refine ⟨by decide +kernel, by decide +kernel, by decide +kernel, fun always => ?_⟩
  have same := always keyBeforePassword "hunter2".toList "swordfish".toList (by decide +kernel)
    (by decide +kernel)
  revert same
  decide +kernel

end Redaction

end Intake
