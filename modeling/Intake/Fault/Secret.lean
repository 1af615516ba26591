/-
Module: Intake.Fault.Secret
Purpose: A text that announces a secret value, and what reading it from the left can do to the
  announcement.
Main exports: Redaction.IsValue, Redaction.Announcement, Redaction.Announcement.text, Redaction.overhang,
  Redaction.Announcement.IsSwallowed
-/
import Intake.Fault.Redaction

namespace Intake

namespace Redaction

/-- A value has no white space in it, and is not empty. -/
def IsValue (value : List Char) : Prop := value ≠ [] ∧ ∀ c ∈ value, isBlank c = false

instance (value : List Char) : Decidable (IsValue value) :=
  @instDecidableAnd _ _ inferInstance (List.decidableBAll _ value)

/-- Everything around a secret value: a word that announces it, a separator, white space, and the text
before and behind.  Behind the value the text is over, or white space follows. -/
structure Announcement where
  before : List Char
  word : List Char
  separator : Char
  gap : List Char
  after : List Char
  announces : ∃ secret ∈ secretWords, secret.length = word.length ∧ startsWithFolded secret word = true
  separates : isSeparator separator = true
  blank_gap : ∀ c ∈ gap, isBlank c = true
  ends : after.head?.all isBlank = true

namespace Announcement

/-- The word with its separator. -/
def head (a : Announcement) : List Char := a.word ++ [a.separator]

/-- The text up to the value. -/
def lead (a : Announcement) : List Char := a.before ++ (a.head ++ a.gap)

/-- The text with a value. -/
def text (a : Announcement) (value : List Char) : List Char := a.lead ++ (value ++ a.after)

end Announcement

/-- How many of the characters behind a text are covered by applications of a rule that begin in the text,
which is read from behind its first `skip` characters. -/
def overhang (rule : Rule) : Nat → List Char → List Char → Nat
  | skip, [], _ => skip
  | skip + 1, _ :: rest, behind => overhang rule skip rest behind
  | 0, c :: rest, behind =>
    match rule (c :: (rest ++ behind)) with
    | some (_, covered) => overhang rule (covered - 1) rest behind
    | none => overhang rule 0 rest behind

/-- An earlier value, of a secret that is announced in the text before, reaches over the word and the
separator and ends there, because white space follows. -/
def Announcement.IsSwallowed (a : Announcement) : Prop :=
  a.gap ≠ [] ∧ overhang secretRule 0 a.before a.head ≠ 0

instance (a : Announcement) : Decidable a.IsSwallowed := instDecidableAnd

end Redaction

end Intake
