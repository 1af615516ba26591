/-
Module: Intake.Proofs.Fault.Swept
Purpose: The course of a sweep, as a relation between the text that is read and the text that is written.
Main exports: Redaction.Swept, Redaction.swept_sweep, Redaction.Swept.copies, Redaction.Swept.solid,
  Redaction.Swept.eq_of_passed

Statements about a swept text are proved by induction on the course: a character was copied because the rule
did not apply to what it begins, or the rule applied and its replacement was written.
-/
import Mathlib.Data.List.Basic
import Intake.Proofs.Fault.Sweep

namespace Intake

namespace Redaction

/-- How a rule leads from one text to another. -/
inductive Swept (rule : Rule) : List Char → List Char → Prop where
  | nil : Swept rule [] []
  | copied {c : Char} {rest written : List Char} (passes : rule (c :: rest) = none)
      (onwards : Swept rule rest written) : Swept rule (c :: rest) (c :: written)
  | replaced {covered rest replacement written : List Char} (nonempty : covered ≠ [])
      (applies : rule (covered ++ rest) = some (replacement, covered.length))
      (onwards : Swept rule rest written) : Swept rule (covered ++ rest) (replacement ++ written)

/-- A rule covers at least one character, and no more than there are. -/
def IsBounded (rule : Rule) : Prop :=
  ∀ s replacement n, rule s = some (replacement, n) → 0 < n ∧ n ≤ s.length

/-- A rule does not apply at white space. -/
def PassesBlank (rule : Rule) : Prop := ∀ c, isBlank c = true → ∀ rest, rule (c :: rest) = none

/-- A sweep leads from a text to what is written for it. -/
theorem swept_sweep {rule : Rule} (bounded : IsBounded rule) (s : List Char) :
    Swept rule s (sweep rule s) := by
  induction length : s.length using Nat.strongRecOn generalizing s with
  | ind size ih =>
      subst length
      cases s with
      | nil => exact .nil
      | cons c rest =>
          cases here : rule (c :: rest) with
          | none =>
              rw [sweep, sweepFrom_of_none here]
              exact .copied here (ih rest.length (Nat.lt_succ_self _) rest rfl)
          | some application =>
              obtain ⟨replacement, n⟩ := application
              obtain ⟨some_covered, within⟩ := bounded _ _ _ here
              have split : (c :: rest).take n ++ (c :: rest).drop n = c :: rest :=
                List.take_append_drop n _
              have covers : ((c :: rest).take n).length = n := List.length_take_of_le within
              have nonempty : (c :: rest).take n ≠ [] :=
                List.ne_nil_of_length_pos (covers.symm ▸ some_covered)
              have shorter : ((c :: rest).drop n).length < (c :: rest).length := by
                rw [List.length_drop]
                omega
              generalize (c :: rest).take n = covered at split covers nonempty
              generalize (c :: rest).drop n = behind at split shorter
              rw [← split, ← covers] at here
              rw [← split, sweep_of_some nonempty here]
              exact .replaced nonempty here (ih _ shorter behind rfl)

namespace Swept

variable {rule : Rule} {s t : List Char}

/-- A character at which the rule does not apply is copied. -/
theorem of_passed {c : Char} {rest : List Char} (passes : rule (c :: rest) = none)
    (swept : Swept rule (c :: rest) t) : ∃ written, t = c :: written ∧ Swept rule rest written := by
  generalize text : c :: rest = s at swept
  cases swept with
  | nil => cases text
  | copied _ onwards =>
      cases text
      exact ⟨_, rfl, onwards⟩
  | replaced _ applies _ =>
      rw [← text, passes] at applies
      cases applies

/-- Characters at which the rule does not apply, whatever follows them, are copied. -/
theorem copies {front rest : List Char} (passes : ∀ c ∈ front, ∀ rest, rule (c :: rest) = none)
    (swept : Swept rule (front ++ rest) t) :
    ∃ written, t = front ++ written ∧ Swept rule rest written := by
  induction front generalizing t with
  | nil => exact ⟨t, rfl, swept⟩
  | cons c front ih =>
      obtain ⟨behind, rfl, onwards⟩ := swept.of_passed (passes c List.mem_cons_self _)
      obtain ⟨written, rfl, later⟩ := ih (fun d member => passes d (List.mem_cons_of_mem c member)) onwards
      exact ⟨written, rfl, later⟩

/-- White space at the beginning stays there. -/
theorem ends (blank : PassesBlank rule) (swept : Swept rule s t) (ends : s.head?.all isBlank = true) :
    t.head?.all isBlank = true := by
  cases swept with
  | nil => rfl
  | copied _ _ => exact ends
  | replaced nonempty applies _ =>
      obtain ⟨c, covered, rfl⟩ := List.exists_cons_of_ne_nil nonempty
      rw [List.cons_append, blank c ends] at applies
      cases applies

/-- Where nothing but white space is read, nothing but white space is written. -/
theorem solid (blank : PassesBlank rule) (swept : Swept rule s t) (some_solid : ∃ c ∈ t, isBlank c = false) :
    ∃ c ∈ s, isBlank c = false := by
  induction swept with
  | nil => exact some_solid
  | @copied d rest written _ _ ih =>
      obtain ⟨c, member, solid⟩ := some_solid
      rcases List.mem_cons.mp member with rfl | later
      · exact ⟨c, List.mem_cons_self, solid⟩
      · obtain ⟨e, among, solid_e⟩ := ih ⟨c, later, solid⟩
        exact ⟨e, List.mem_cons_of_mem d among, solid_e⟩
  | replaced nonempty applies _ _ =>
      obtain ⟨c, covered, rfl⟩ := List.exists_cons_of_ne_nil nonempty
      refine ⟨c, List.mem_cons_self, ?_⟩
      cases blank_c : isBlank c with
      | false => rfl
      | true =>
          rw [List.cons_append, blank c blank_c] at applies
          cases applies

/-- A text in which the rule applies nowhere stays as it is. -/
theorem eq_of_passed (passed : ∀ before rest, s = before ++ rest → rule rest = none)
    (swept : Swept rule s t) : t = s := by
  induction swept with
  | nil => rfl
  | @copied c rest written _ _ ih =>
      rw [ih fun before behind split => passed (c :: before) behind (by rw [split, List.cons_append])]
  | @replaced covered rest _ _ _ applies _ _ =>
      rw [passed [] (covered ++ rest) rfl] at applies
      cases applies

end Swept

end Redaction

end Intake
