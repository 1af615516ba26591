/-
Module: Intake.Fault.Exposure
Purpose: What a text shows of credentials: the directories that it enters, and the values that it announces.
Main exports: Redaction.Enters, Redaction.ShowsCredentials, Redaction.LeadsIn, Redaction.IsUncovered,
  Redaction.IsMasked
-/
import Intake.Fault.Secret

namespace Intake

namespace Redaction

/-- A text begins with a credential directory between slashes and a character of a path behind it. -/
def Enters (s : List Char) : Prop :=
  ∃ directory ∈ credentialDirectories, ∃ c rest,
    s = '/' :: (directory ++ '/' :: c :: rest) ∧ isPathChar c = true

/-- A text enters a credential directory, whatever stands in front of it. -/
def ShowsCredentials (s : List Char) : Prop := ∃ before path, s = before ++ path ∧ Enters path

/-- A text begins with a path that leads into a credential directory: a slash, at least one more character of
the path, and then the directory. -/
def LeadsIn (s : List Char) : Prop :=
  ∃ lead path, s = '/' :: (lead ++ path) ∧ lead ≠ [] ∧ (∀ c ∈ lead, isPathChar c = true) ∧ Enters path

/-- A place where a text enters a credential directory is not part of a path that leads there: no further
credential directory follows in the same path, and in front, as far as there are characters of paths, no slash
has anything between it and the place. -/
def IsUncovered (before path : List Char) : Prop :=
  ¬ LeadsIn path ∧
    ∀ between, between ≠ [] → (∀ c ∈ between, isPathChar c = true) → ¬ '/' :: between <:+ before

/-- Every value that a text announces is the mask, right behind the sign of equality. -/
def IsMasked (s : List Char) : Prop :=
  ∀ (a : Announcement) (value : List Char), IsValue value → s = a.text value →
    a.separator = '=' ∧ a.gap = [] ∧ value = "***".toList

end Redaction

end Intake
