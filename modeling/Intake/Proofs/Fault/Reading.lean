/-
Module: Intake.Proofs.Fault.Reading
Purpose: How the rule for secrets reads a text that stands in front of the announcement of a secret.
Main exports: Redaction.fold, Redaction.startsWithFolded_iff, Redaction.valueLength?_of_run,
  Redaction.Announcement.secretRule_head, Redaction.Announcement.Reading,
  Redaction.Announcement.reading

At any place before the word the rule either does not apply, or covers only what stands before the word,
or covers exactly as much as the word, the separator and whatever follows them without white space.
Which of these it is does not depend on what follows.
-/
import Mathlib.Data.List.Find
import Mathlib.Data.List.TakeWhile
import Intake.Fault.Secret

namespace Intake

namespace Redaction

/-! ### Letters in any case

Words are found in any case, so all comparisons are made with the lower case letters that characters are cases
of. -/

/-- The lower case letter that a character is a case of. -/
def fold (c : Char) : Char :=
  if c = '\u017f' then 's' else if c = '\u212a' then 'k' else c.toLower

/-- A character is a case of a letter if it folds to it. -/
theorem foldsTo_eq {letter : Char} (lower : letter.isLower = true) (c : Char) :
    foldsTo letter c = (fold c == letter) := by
  have not_s : ('\u017f' == letter) = false := by
    rw [beq_eq_false_iff_ne]
    rintro rfl
    exact absurd lower (by decide)
  have not_k : ('\u212a' == letter) = false := by
    rw [beq_eq_false_iff_ne]
    rintro rfl
    exact absurd lower (by decide)
  rw [foldsTo, fold]
  split
  · next long =>
      subst long
      have own : '\u017f'.toLower = '\u017f' := by decide
      rw [own, not_s, Bool.beq_comm (a := 's')]
      simp
  · next short =>
      split
      · next kelvin =>
          subst kelvin
          have own : '\u212a'.toLower = '\u212a' := by decide
          rw [own, not_k, Bool.beq_comm (a := 'k')]
          simp
      · next other =>
        rw [beq_eq_false_iff_ne.mpr short, beq_eq_false_iff_ne.mpr other]
        simp

/-- A text begins with a word in any case if its letters in lower case do. -/
theorem startsWithFolded_iff {word : List Char} (lower : ∀ l ∈ word, l.isLower = true)
    (s : List Char) : startsWithFolded word s = true ↔ word <+: s.map fold := by
  induction word generalizing s with
  | nil => simp [startsWithFolded]
  | cons letter word ih =>
      cases s with
      | nil => simp [startsWithFolded]
      | cons c rest =>
          rw [startsWithFolded, foldsTo_eq (lower letter List.mem_cons_self), Bool.and_eq_true,
            ih (fun l member => lower l (List.mem_cons_of_mem _ member)), List.map_cons,
            List.cons_prefix_cons, beq_iff_eq, eq_comm]

theorem isLower_of_mem_secretWords (word : List Char) (member : word ∈ secretWords) :
    ∀ letter ∈ word, letter.isLower = true := by
  have all_lower : ∀ word ∈ secretWords, word.all Char.isLower = true := by decide
  exact List.all_eq_true.mp (all_lower word member)

/-- No two of the words begin alike, or end alike, so that one is a part of the other. -/
theorem eq_of_prefix_of_mem_secretWords :
    ∀ one ∈ secretWords, ∀ two ∈ secretWords, one <+: two → one = two := by
  decide

theorem eq_of_suffix_of_mem_secretWords :
    ∀ one ∈ secretWords, ∀ two ∈ secretWords, one <:+ two → one = two := by
  decide

theorem isLower_fold_of_separator {c : Char} (separates : isSeparator c = true) :
    (fold c).isLower = false := by
  rw [isSeparator, Bool.or_eq_true, beq_iff_eq, beq_iff_eq] at separates
  rcases separates with rfl | rfl
  · decide
  · decide

theorem isSeparator_of_lower {c : Char} (lower : (fold c).isLower = true) : isSeparator c = false := by
  cases separates : isSeparator c with
  | false => rfl
  | true =>
      rw [isLower_fold_of_separator separates] at lower
      cases lower

theorem isBlank_of_separator {c : Char} (separates : isSeparator c = true) : isBlank c = false := by
  rw [isSeparator, Bool.or_eq_true, beq_iff_eq, beq_iff_eq] at separates
  rcases separates with rfl | rfl
  · decide
  · decide

theorem isLower_fold_of_blank {c : Char} (blank : isBlank c = true) : (fold c).isLower = false := by
  have not_s : c ≠ '\u017f' := by
    rintro rfl
    exact absurd blank (by decide)
  have not_k : c ≠ '\u212a' := by
    rintro rfl
    exact absurd blank (by decide)
  obtain ⟨no_upper, no_lower, -⟩ := not_alphanum_of_isBlank blank
  have same : fold c = c := by
    rw [fold, if_neg not_s, if_neg not_k]
    exact dif_neg (of_decide_eq_false no_upper)
  rw [same, no_lower]

theorem foldsTo_eq_false {letter c : Char} (lower : letter.isLower = true)
    (other : (fold c).isLower = false) : foldsTo letter c = false := by
  rw [foldsTo_eq lower, beq_eq_false_iff_ne]
  rintro rfl
  rw [lower] at other
  cases other

/-- A word does not reach over what is not a letter. -/
theorem startsWithFolded_append {word : List Char} (lower : ∀ l ∈ word, l.isLower = true) {c : Char}
    (other : (fold c).isLower = false) (s rest : List Char) :
    startsWithFolded word (s ++ c :: rest) = startsWithFolded word s := by
  induction word generalizing s with
  | nil => rw [startsWithFolded, startsWithFolded]
  | cons letter word ih =>
      cases s with
      | nil =>
          rw [List.nil_append, startsWithFolded, startsWithFolded,
            foldsTo_eq_false (lower letter List.mem_cons_self) other, Bool.false_and]
      | cons d s =>
          rw [List.cons_append, startsWithFolded, startsWithFolded,
            ih (fun l member => lower l (List.mem_cons_of_mem _ member))]

theorem find?_secretWords_append {c : Char} (other : (fold c).isLower = false)
    (s rest : List Char) :
    secretWords.find? (startsWithFolded · (s ++ c :: rest)) =
      secretWords.find? (startsWithFolded · s) :=
  List.find?_congr fun word member =>
    startsWithFolded_append (isLower_of_mem_secretWords word member) other s rest

/-! ### Values

A value ends at the next white space.  What follows this does not matter. -/

theorem takeWhile_of_ends {rest : List Char} (ends : rest.head?.all isBlank = true) :
    rest.takeWhile (!isBlank ·) = [] := by
  cases rest with
  | nil => rfl
  | cons c rest =>
      have blank : isBlank c = true := ends
      exact List.takeWhile_cons_of_neg (by simp [blank])

theorem dropWhile_of_ends {rest : List Char} (ends : rest.head?.all isBlank = true) :
    rest.dropWhile (!isBlank ·) = rest := by
  cases rest with
  | nil => rfl
  | cons c rest =>
      have blank : isBlank c = true := ends
      exact List.dropWhile_cons_of_neg (by simp [blank])

theorem ends_dropWhile (s : List Char) : (s.dropWhile (!isBlank ·)).head?.all isBlank = true := by
  have stops := List.head?_dropWhile_not (!isBlank ·) s
  cases left : s.dropWhile (!isBlank ·) with
  | nil => rfl
  | cons c rest =>
      rw [left] at stops
      simpa using stops

/-- Behind white space, a value is all that comes before the next white space. -/
theorem valueLength?_of_run {gap value rest : List Char} (blank : ∀ c ∈ gap, isBlank c = true)
    (isValue : IsValue value) (ends : rest.head?.all isBlank = true) :
    valueLength? (gap ++ (value ++ rest)) = some (gap.length + value.length) := by
  obtain ⟨nonempty, solid⟩ := isValue
  have taken : (value ++ rest).takeWhile (!isBlank ·) = value := by
    rw [List.takeWhile_append_of_pos (by simpa using solid), takeWhile_of_ends ends, List.append_nil]
  obtain ⟨c, others, rfl⟩ := List.exists_cons_of_ne_nil nonempty
  have first : ¬ isBlank c = true := by simp [solid c List.mem_cons_self]
  have skipped : (gap ++ (c :: others ++ rest)).dropWhile isBlank = c :: others ++ rest := by
    rw [List.dropWhile_append_of_pos blank, List.cons_append, List.dropWhile_cons_of_neg first]
  have blanks : (gap ++ (c :: others ++ rest)).takeWhile isBlank = gap := by
    rw [List.takeWhile_append_of_pos blank, List.cons_append, List.takeWhile_cons_of_neg first,
      List.append_nil]
  simp only [valueLength?, skipped, taken, blanks, if_neg nonempty]

/-- A text that does not begin with white space but holds some begins with a value that ends in it. -/
theorem exists_value_of_blank {s : List Char} (starts : ∀ c ∈ s.head?, isBlank c = false)
    (broken : ¬ ∀ c ∈ s, isBlank c = false) :
    ∃ value c rest, s = value ++ c :: rest ∧ IsValue value ∧ isBlank c = true := by
  have run : s.takeWhile (!isBlank ·) ++ s.dropWhile (!isBlank ·) = s :=
    List.takeWhile_append_dropWhile
  have stops := ends_dropWhile s
  have solid : ∀ c ∈ s.takeWhile (!isBlank ·), isBlank c = false := by
    intro c member
    simpa using List.mem_takeWhile_imp member
  generalize s.takeWhile (!isBlank ·) = value at run solid
  generalize s.dropWhile (!isBlank ·) = later at run stops
  subst run
  cases later with
  | nil =>
      rw [List.append_nil] at broken
      exact absurd solid broken
  | cons c rest =>
      have blank : isBlank c = true := stops
      refine ⟨value, c, rest, rfl, ⟨?_, solid⟩, blank⟩
      rintro rfl
      have solid_c : isBlank c = false := starts c rfl
      rw [blank] at solid_c
      cases solid_c

/-- A text either holds a value that ends in it, whatever follows, or is the beginning of a value with
anything that follows it. -/
theorem valueLength?_append (s : List Char) :
    (∃ n ≤ s.length, ∀ rest, valueLength? (s ++ rest) = some n) ∨
      ∀ value rest, IsValue value → rest.head?.all isBlank = true →
        valueLength? (s ++ (value ++ rest)) = some (s.length + value.length) := by
  have split : s.takeWhile isBlank ++ s.dropWhile isBlank = s := List.takeWhile_append_dropWhile
  have blank : ∀ c ∈ s.takeWhile isBlank, isBlank c = true := fun c => List.mem_takeWhile_imp
  have starts : ∀ c ∈ (s.dropWhile isBlank).head?, isBlank c = false := by
    intro c first
    have stops := List.head?_dropWhile_not isBlank s
    rw [Option.mem_def.mp first] at stops
    exact stops
  generalize s.takeWhile isBlank = gap at split blank
  generalize s.dropWhile isBlank = behind at split starts
  subst split
  by_cases solid : ∀ c ∈ behind, isBlank c = false
  · right
    intro value rest isValue ends
    have longer : IsValue (behind ++ value) := by
      refine ⟨List.append_ne_nil_of_right_ne_nil _ isValue.1, ?_⟩
      intro c member
      exact (List.mem_append.mp member).elim (solid c) (isValue.2 c)
    rw [List.append_assoc, ← List.append_assoc behind, valueLength?_of_run blank longer ends,
      List.length_append, List.length_append, Nat.add_assoc]
  · left
    obtain ⟨value, c, later, rfl, isValue, blank_c⟩ := exists_value_of_blank starts solid
    refine ⟨gap.length + value.length, ?_, fun rest => ?_⟩
    · rw [List.length_append, List.length_append]
      omega
    · rw [List.append_assoc, List.append_assoc]
      exact valueLength?_of_run blank isValue blank_c

/-! ### The rule

The rule looks for a word, then for a separator and then for a value.  In front of an announcing word it is
read in one of the ways of `Reading`, and this does not depend on the value. -/

/-- Without a word the rule does not apply. -/
theorem secretRule_of_not_found {s : List Char}
    (none_found : secretWords.find? (startsWithFolded · s) = none) : secretRule s = none := by
  rw [secretRule, none_found]

/-- With a word it depends on what follows this word. -/
theorem secretRule_of_found {s word rest : List Char} {c : Char}
    (found : secretWords.find? (startsWithFolded · s) = some word)
    (behind : s.drop word.length = c :: rest) :
    secretRule s =
      if isSeparator c then
        (valueLength? rest).map fun n =>
          (s.take word.length ++ "=***".toList, word.length + 1 + n)
      else none := by
  rw [secretRule, found]
  simp only [behind]

/-- The rule does not apply at a character that no word begins with. -/
theorem secretRule_cons_eq_none {c : Char} (other : (fold c).isLower = false) (rest : List Char) :
    secretRule (c :: rest) = none := by
  have elsewhere := find?_secretWords_append other [] rest
  rw [List.nil_append] at elsewhere
  apply secretRule_of_not_found
  rw [elsewhere]
  decide

namespace Announcement

variable (a : Announcement)

theorem map_fold_word_mem : a.word.map fold ∈ secretWords := by
  obtain ⟨secret, member, length, starts⟩ := a.announces
  rw [startsWithFolded_iff (isLower_of_mem_secretWords secret member)] at starts
  have same : secret = a.word.map fold := starts.eq_of_length (by rw [length, List.length_map])
  exact same ▸ member

theorem isLower_fold_of_mem_word {c : Char} (member : c ∈ a.word) : (fold c).isLower = true :=
  isLower_of_mem_secretWords _ a.map_fold_word_mem _ (List.mem_map_of_mem member)

theorem isSeparator_of_mem_word {c : Char} (member : c ∈ a.word) : isSeparator c = false :=
  isSeparator_of_lower (a.isLower_fold_of_mem_word member)

theorem isBlank_of_mem_head {c : Char} (member : c ∈ a.head) : isBlank c = false := by
  rcases List.mem_append.mp member with inWord | last
  · cases blank : isBlank c with
    | false => rfl
    | true =>
        have lower := a.isLower_fold_of_mem_word inWord
        rw [isLower_fold_of_blank blank] at lower
        cases lower
  · rw [List.mem_singleton.mp last]
    exact isBlank_of_separator a.separates

theorem isValue_head_append (rest : List Char) :
    IsValue (a.head ++ rest.takeWhile (!isBlank ·)) := by
  refine ⟨List.append_ne_nil_of_left_ne_nil (List.concat_ne_nil _ _) _, ?_⟩
  intro c member
  rcases List.mem_append.mp member with inHead | taken
  · exact a.isBlank_of_mem_head inHead
  · simpa using List.mem_takeWhile_imp taken

/-- A word of the rule that a text with the announcing word behind it begins with. -/
theorem find?_head (y rest : List Char) :
    secretWords.find? (startsWithFolded · (y ++ (a.head ++ rest))) =
      secretWords.find? (startsWithFolded · (y ++ a.word)) := by
  rw [head, List.append_assoc, ← List.append_assoc y]
  exact find?_secretWords_append (isLower_fold_of_separator a.separates) _ _

/-- A word that is found begins in the text before, and reaches into the announcing word at most. -/
theorem prefix_of_find?_head {y word : List Char}
    (found : secretWords.find? (startsWithFolded · (y ++ a.word)) = some word) :
    word ∈ secretWords ∧ word <+: y.map fold ++ a.word.map fold := by
  have member : word ∈ secretWords := List.mem_of_find?_eq_some found
  have starts : startsWithFolded word (y ++ a.word) = true :=
    List.find?_some (p := fun word => startsWithFolded word (y ++ a.word)) found
  rw [startsWithFolded_iff (isLower_of_mem_secretWords word member), List.map_append] at starts
  exact ⟨member, starts⟩

/-- At the announcing word the rule applies to what stands behind the separator. -/
theorem secretRule_head (rest : List Char) :
    secretRule (a.head ++ rest) =
      (valueLength? rest).map fun n => (a.word ++ "=***".toList, a.head.length + n) := by
  have starts : startsWithFolded (a.word.map fold) a.word = true :=
    (startsWithFolded_iff (isLower_of_mem_secretWords _ a.map_fold_word_mem) a.word).mpr
      (List.prefix_refl _)
  cases found : secretWords.find? (startsWithFolded · ([] ++ a.word)) with
  | none => exact absurd starts (List.find?_eq_none.mp found _ a.map_fold_word_mem)
  | some word =>
      obtain ⟨member, begins⟩ := a.prefix_of_find?_head found
      have same : word = a.word.map fold :=
        eq_of_prefix_of_mem_secretWords word member _ a.map_fold_word_mem begins
      have long : word.length = a.word.length := by rw [same, List.length_map]
      have found_here := a.find?_head [] rest
      rw [found, List.nil_append] at found_here
      have text : a.head ++ rest = a.word ++ a.separator :: rest := by
        rw [head, List.append_assoc]
        rfl
      have behind : (a.head ++ rest).drop word.length = a.separator :: rest := by
        rw [text, long, List.drop_left]
      rw [secretRule_of_found found_here behind, if_pos a.separates, text, long, List.take_left, head,
        List.length_append, List.length_singleton]

/-- The ways in which the rule reads a text in front of the announcing word, whatever follows the
separator: it does not apply, or it covers nothing but that text, or it covers as much as a value that
reaches on over the word and the separator. -/
inductive Reading (y : List Char) : Prop where
  | passes (none_read : ∀ rest, secretRule (y ++ (a.head ++ rest)) = none)
  | within {replacement : List Char} {n : Nat} (short : n ≤ y.length)
      (read : ∀ rest, secretRule (y ++ (a.head ++ rest)) = some (replacement, n))
  | across {replacement : List Char}
      (read : ∀ rest, secretRule (y ++ (a.head ++ rest)) =
        some (replacement, y.length + a.head.length + (rest.takeWhile (!isBlank ·)).length))

section Found

variable {a : Announcement} {y word : List Char}
  (found : secretWords.find? (startsWithFolded · (y ++ a.word)) = some word)
include found

theorem find?_head_of_found (rest : List Char) :
    secretWords.find? (startsWithFolded · (y ++ (a.head ++ rest))) = some word :=
  (a.find?_head y rest).trans found

/-- A word that reaches beyond the text before reaches into the announcing word, but not to its end. -/
theorem passes_of_past (nonempty : y ≠ []) (past : y.length ≤ word.length) (rest : List Char) :
    secretRule (y ++ (a.head ++ rest)) = none := by
  obtain ⟨member, begins⟩ := a.prefix_of_find?_head found
  have fits : word.length ≤ y.length + a.word.length := by simpa using begins.length_le
  cases left : a.word.drop (word.length - y.length) with
  | nil =>
      have all : a.word.length ≤ word.length - y.length := List.drop_eq_nil_iff.mp left
      have same : word = y.map fold ++ a.word.map fold := by
        apply begins.eq_of_length
        rw [List.length_append, List.length_map, List.length_map]
        omega
      have ending : a.word.map fold = word :=
        eq_of_suffix_of_mem_secretWords _ a.map_fold_word_mem word member ⟨_, same.symm⟩
      have length : a.word.length = word.length := by rw [← ending, List.length_map]
      have none_before : y.length = 0 := by omega
      exact absurd (List.length_eq_zero_iff.mp none_before) nonempty
  | cons c s =>
      have inWord : c ∈ a.word := List.mem_of_mem_drop (left ▸ List.mem_cons_self)
      have behind : (y ++ (a.head ++ rest)).drop word.length = c :: (s ++ a.separator :: rest) := by
        rw [List.drop_append, List.drop_eq_nil_iff.mpr past, head, List.append_assoc,
          List.drop_append_of_le_length (by omega), left]
        rfl
      rw [secretRule_of_found (find?_head_of_found found rest) behind,
        a.isSeparator_of_mem_word inWord]
      rfl

/-- A word that ends in the text before is followed by a separator and a value, or the rule does not
apply. -/
theorem reading_of_inside {c : Char} {s : List Char} (behind : y.drop word.length = c :: s) :
    a.Reading y := by
  have long : y.length = word.length + 1 + s.length := by
    have lengths := congrArg List.length behind
    rw [List.length_drop, List.length_cons] at lengths
    omega
  have inside : word.length ≤ y.length := by omega
  have after : ∀ rest, (y ++ (a.head ++ rest)).drop word.length = c :: (s ++ (a.head ++ rest)) := by
    intro rest
    rw [List.drop_append_of_le_length inside, behind]
    rfl
  cases separates : isSeparator c with
  | false =>
      refine .passes fun rest => ?_
      rw [secretRule_of_found (find?_head_of_found found rest) (after rest), separates]
      rfl
  | true =>
      have applies : ∀ rest n, valueLength? (s ++ (a.head ++ rest)) = some n →
          secretRule (y ++ (a.head ++ rest)) =
            some (y.take word.length ++ "=***".toList, word.length + 1 + n) := by
        intro rest n value
        rw [secretRule_of_found (find?_head_of_found found rest) (after rest), if_pos separates, value,
          List.take_append_of_le_length inside]
        rfl
      rcases valueLength?_append s with ⟨n, short, value⟩ | value
      · exact .within (by omega) fun rest => applies rest n (value _)
      · have read : ∀ rest, secretRule (y ++ (a.head ++ rest)) =
            some (y.take word.length ++ "=***".toList,
              y.length + a.head.length + (rest.takeWhile (!isBlank ·)).length) := by
          intro rest
          have split : a.head ++ rest =
              (a.head ++ rest.takeWhile (!isBlank ·)) ++ rest.dropWhile (!isBlank ·) := by
            rw [List.append_assoc, List.takeWhile_append_dropWhile]
          have length := value _ _ (a.isValue_head_append rest) (ends_dropWhile rest)
          rw [← split, List.length_append] at length
          rw [applies rest _ length, long]
          congr 2
          omega
        exact .across read

end Found

/-- Every place in front of the announcing word is read in one of these ways. -/
theorem reading (a : Announcement) {y : List Char} (nonempty : y ≠ []) : a.Reading y := by
  cases found : secretWords.find? (startsWithFolded · (y ++ a.word)) with
  | none => exact .passes fun rest => secretRule_of_not_found ((a.find?_head y rest).trans found)
  | some word =>
      cases behind : y.drop word.length with
      | nil => exact .passes (passes_of_past found nonempty (List.drop_eq_nil_iff.mp behind))
      | cons c s => exact reading_of_inside found behind

end Announcement

end Redaction

end Intake
