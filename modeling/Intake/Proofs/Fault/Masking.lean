/-
Module: Intake.Proofs.Fault.Masking
Purpose: Making a text safe again leaves it as it is: neither rule gives the other anything new to replace.
Main exports: Redaction.announcement_of_covered, Redaction.Announces.of_swept, Redaction.isMasked_of_swept,
  Redaction.IsMasked.of_swept_pathRule, Redaction.IsMasked.fixed, Redaction.redact_redact,
  Redaction.sanitized_is_fixed

Whether the rule for secrets applies is decided by a word and the separator behind it, and by whether anything
but white space follows.  What a sweep writes decides this no differently from what it reads, so that a text
announces nothing that was not announced before.  Where it still announces a value, that is the mask.
-/
import Intake.Proofs.Fault.Credentials
import Intake.Proofs.Fault.Reading

namespace Intake

namespace Redaction

/-! ### Values

A value is what stands between a separator and the next white space, with white space before it. -/

/-- What is measured as a value is one. -/
theorem exists_value_of_valueLength? {s : List Char} {n : Nat} (length : valueLength? s = some n) :
    ∃ gap value after, s = gap ++ (value ++ after) ∧ (∀ c ∈ gap, isBlank c = true) ∧ IsValue value ∧
      after.head?.all isBlank = true ∧ n = gap.length + value.length := by
  rw [valueLength?] at length
  split at length
  · cases length
  · next nonempty =>
      refine ⟨s.takeWhile isBlank, (s.dropWhile isBlank).takeWhile (!isBlank ·),
        (s.dropWhile isBlank).dropWhile (!isBlank ·), ?_, fun c => List.mem_takeWhile_imp, ⟨nonempty, ?_⟩,
        ends_dropWhile _, (Option.some.inj length).symm⟩
      · rw [List.takeWhile_append_dropWhile, List.takeWhile_append_dropWhile]
      · intro c member
        simpa using List.mem_takeWhile_imp member

/-- There is a value wherever there is anything but white space. -/
theorem exists_valueLength? {s : List Char} (some_solid : ∃ c ∈ s, isBlank c = false) :
    ∃ n, valueLength? s = some n := by
  obtain ⟨c, member, solid⟩ := some_solid
  have first := List.head?_dropWhile_not isBlank s
  cases left : s.dropWhile isBlank with
  | nil =>
      have blank := List.dropWhile_eq_nil_iff.mp left c member
      rw [solid] at blank
      cases blank
  | cons d rest =>
      rw [left] at first
      have solid_d : isBlank d = false := first
      exact ⟨_, by rw [valueLength?, left, List.takeWhile_cons_of_pos (by simp [solid_d])]; rfl⟩

/-! ### What the rule for secrets covers

Where the rule applies there is an announcement: a word, a separator and a value. -/

/-- A text begins with the word that is found, as it is written there. -/
theorem exists_word_of_found {s secret : List Char}
    (found : secretWords.find? (startsWithFolded · s) = some secret) :
    ∃ word behind, s = word ++ behind ∧ secret.length = word.length ∧ secret ∈ secretWords ∧
      startsWithFolded secret word = true := by
  have member : secret ∈ secretWords := List.mem_of_find?_eq_some found
  have lower := isLower_of_mem_secretWords secret member
  have starts : startsWithFolded secret s = true :=
    List.find?_some (p := fun word => startsWithFolded word s) found
  have letters : secret = (s.take secret.length).map fold := by
    rw [List.map_take]
    exact List.prefix_iff_eq_take.mp ((startsWithFolded_iff lower s).mp starts)
  refine ⟨s.take secret.length, s.drop secret.length, (List.take_append_drop _ s).symm, ?_, member, ?_⟩
  · simpa using congrArg List.length letters
  · exact (startsWithFolded_iff lower _).mpr (letters ▸ List.prefix_refl _)

/-- The rule covers an announcement up to the end of its value. -/
theorem exists_announcement {s replacement : List Char} {n : Nat}
    (applies : secretRule s = some (replacement, n)) :
    ∃ (a : Announcement) (value : List Char), IsValue value ∧
      s = a.word ++ a.separator :: (a.gap ++ value) ++ a.after ∧ replacement = a.word ++ "=***".toList ∧
      n = (a.word ++ a.separator :: (a.gap ++ value)).length := by
  cases found : secretWords.find? (startsWithFolded · s) with
  | none =>
      rw [secretRule_of_not_found found] at applies
      cases applies
  | some secret =>
      obtain ⟨word, behind, rfl, length, member, folded⟩ := exists_word_of_found found
      have after_word : (word ++ behind).drop secret.length = behind := length ▸ List.drop_left
      have the_word : (word ++ behind).take secret.length = word := length ▸ List.take_left
      cases behind with
      | nil =>
          rw [secretRule, found] at applies
          simp only [after_word] at applies
          cases applies
      | cons separator rest =>
          rw [secretRule_of_found found after_word, the_word, length] at applies
          split at applies
          · next separates =>
              obtain ⟨k, value_length, pair⟩ := Option.map_eq_some_iff.mp applies
              obtain ⟨gap, value, after, rfl, blank, isValue, ends, rfl⟩ :=
                exists_value_of_valueLength? value_length
              injection pair with written covered
              refine ⟨⟨[], word, separator, gap, after, ⟨secret, member, length, folded⟩, separates, blank,
                ends⟩, value, isValue, by simp, written.symm, ?_⟩
              show n = (word ++ separator :: (gap ++ value)).length
              rw [← covered, List.length_append, List.length_cons, List.length_append]
              omega
          · cases applies

theorem isBounded_secretRule : IsBounded secretRule := by
  intro s replacement n applies
  obtain ⟨a, value, -, rfl, -, rfl⟩ := exists_announcement applies
  exact ⟨List.length_pos_of_ne_nil (by simp), by simp⟩

/-- Where the rule applies, it covers a word with its separator and its value. -/
theorem announcement_of_covered {covered rest replacement : List Char}
    (applies : secretRule (covered ++ rest) = some (replacement, covered.length)) :
    ∃ (a : Announcement) (value : List Char), IsValue value ∧
      covered = a.word ++ a.separator :: (a.gap ++ value) ∧ rest = a.after ∧
      replacement = a.word ++ "=***".toList := by
  obtain ⟨a, value, isValue, split, written, length⟩ := exists_announcement applies
  obtain ⟨covers, behind⟩ := List.append_inj split length
  exact ⟨a, value, isValue, covers, behind, written⟩

theorem passesBlank_secretRule : PassesBlank secretRule :=
  fun _ blank => secretRule_cons_eq_none (isLower_fold_of_blank blank)

theorem passesBlank_pathRule : PassesBlank pathRule := by
  intro c blank
  apply pathRule_of_ne
  rintro rfl
  exact absurd blank (by decide)

/-! ### Announcements

An announcement is taken apart as it is read, so that it can be found again in what is written. -/

/-- A word without separators is read from the text in which a separator follows it. -/
theorem takeWhile_word {word : List Char} {separator : Char} (rest : List Char)
    (letters : ∀ c ∈ word, isSeparator c = false) (separates : isSeparator separator = true) :
    (word ++ separator :: rest).takeWhile (!isSeparator ·) = word := by
  rw [List.takeWhile_append_of_pos (by simpa using letters),
    List.takeWhile_cons_of_neg (by simp [separates]), List.append_nil]

/-- A text begins with a word of these letters and a separator, and not only white space follows. -/
def Announces (letters s : List Char) : Prop :=
  ∃ word separator rest, s = word ++ separator :: rest ∧ word.map fold = letters ∧
    isSeparator separator = true ∧ ∃ c ∈ rest, isBlank c = false

namespace Announcement

variable (a : Announcement) {value : List Char} (isValue : IsValue value)

theorem text_eq (value : List Char) :
    a.text value = a.before ++ (a.word ++ a.separator :: (a.gap ++ (value ++ a.after))) := by
  simp [text, lead, head]

/-- The announcement with another text in front of it. -/
def behind (before : List Char) : Announcement := { a with before := before }

theorem text_behind (before value : List Char) :
    (a.behind before).text value = before ++ (a.word ++ a.separator :: (a.gap ++ (value ++ a.after))) :=
  (a.behind before).text_eq value

include isValue in
theorem announces_word :
    Announces (a.word.map fold) (a.word ++ a.separator :: (a.gap ++ (value ++ a.after))) := by
  obtain ⟨c, others, rfl⟩ := List.exists_cons_of_ne_nil isValue.1
  exact ⟨a.word, a.separator, _, rfl, rfl, a.separates, c, by simp, isValue.2 c List.mem_cons_self⟩

theorem word_ne_nil : a.word ≠ [] := by
  intro none_read
  have member := a.map_fold_word_mem
  rw [none_read] at member
  revert member
  decide

end Announcement

theorem Announces.exists_announcement {letters s : List Char} (announces : Announces letters s)
    (member : letters ∈ secretWords) :
    ∃ (a : Announcement) (value : List Char), IsValue value ∧
      s = a.word ++ a.separator :: (a.gap ++ (value ++ a.after)) := by
  obtain ⟨word, separator, rest, rfl, rfl, separates, some_solid⟩ := announces
  obtain ⟨n, length⟩ := exists_valueLength? some_solid
  obtain ⟨gap, value, after, rfl, blank, isValue, ends, -⟩ := exists_value_of_valueLength? length
  have folded : startsWithFolded (word.map fold) word = true :=
    (startsWithFolded_iff (isLower_of_mem_secretWords _ member) word).mpr (List.prefix_refl _)
  exact ⟨⟨[], word, separator, gap, after, ⟨word.map fold, member, List.length_map _, folded⟩, separates,
    blank, ends⟩, value, isValue, rfl⟩

/-! ### What is announced

A replacement could announce something that was not announced before.  That it does not is seen from the last
characters of what the rules write. -/

/-- Where the rule applies, what is written announces nothing that was not announced in what is read. -/
def AddsNone (rule : Rule) : Prop :=
  ∀ letters covered rest replacement written, (∀ l ∈ letters, l.isLower = true) →
    rule (covered ++ rest) = some (replacement, covered.length) →
      Announces letters (replacement ++ written) → Announces letters (covered ++ rest)

/-- The rule for secrets announces nothing new. -/
theorem addsNone_secretRule : AddsNone secretRule := by
  intro letters covered rest replacement written lower applies announces
  obtain ⟨word, separator, behind, text, rfl, separates, -⟩ := announces
  obtain ⟨a, value, isValue, rfl, rfl, rfl⟩ := announcement_of_covered applies
  have same_word : a.word = word := by
    have words := congrArg (List.takeWhile (!isSeparator ·)) text
    have mask : "=***".toList = '=' :: "***".toList := rfl
    rwa [mask, List.append_assoc, List.cons_append,
      takeWhile_word _ (fun c => a.isSeparator_of_mem_word) (by decide),
      takeWhile_word _ (fun c member => isSeparator_of_lower (lower _ (List.mem_map_of_mem member)))
        separates] at words
  have announced := a.announces_word isValue
  rw [← same_word]
  rwa [← List.append_assoc a.gap, ← List.cons_append, ← List.append_assoc] at announced

/-- Neither does the rule for paths. -/
theorem addsNone_pathRule : AddsNone pathRule := by
  intro letters covered rest replacement written lower applies announces
  obtain ⟨word, separator, behind, text, rfl, separates, -⟩ := announces
  obtain ⟨rfl, -⟩ := covers_of_pathRule applies
  cases word with
  | nil =>
      injection text with slash _
      rw [← slash] at separates
      exact absurd separates (by decide)
  | cons c word =>
      injection text with slash _
      have lower_slash := lower (fold c) List.mem_cons_self
      rw [← slash] at lower_slash
      exact absurd lower_slash (by decide)

/-- A sweep announces nothing new. -/
theorem Announces.of_swept {rule : Rule} {letters s t : List Char} (blank : PassesBlank rule)
    (adds : AddsNone rule) (lower : ∀ l ∈ letters, l.isLower = true) (swept : Swept rule s t)
    (announces : Announces letters t) : Announces letters s := by
  induction swept generalizing letters with
  | nil => exact announces
  | @copied c rest written _ onwards ih =>
      obtain ⟨word, separator, behind, text, rfl, separates, some_solid⟩ := announces
      cases word with
      | nil =>
          injection text with same follows
          exact ⟨[], c, rest, rfl, rfl, same ▸ separates, onwards.solid blank (follows ▸ some_solid)⟩
      | cons d word =>
          injection text with same follows
          subst same
          obtain ⟨others, later, more, rfl, letters, separates_later, solid_later⟩ :=
            ih (List.forall_mem_cons.mp lower).2
              ⟨word, separator, behind, follows, rfl, separates, some_solid⟩
          exact ⟨c :: others, later, more, rfl, congrArg (List.cons (fold c)) letters, separates_later,
            solid_later⟩
  | replaced _ applies _ _ => exact adds _ _ _ _ _ lower applies announces

/-- What stands in front of the mask is not part of a value, and the mask is all of it. -/
theorem Announcement.masked_of_mask (a : Announcement) {value : List Char} (isValue : IsValue value)
    {front written : List Char} (letters : ∀ c ∈ front, isSeparator c = false)
    (ends : written.head?.all isBlank = true)
    (text : a.word ++ a.separator :: (a.gap ++ (value ++ a.after)) = front ++ ("=***".toList ++ written)) :
    a.separator = '=' ∧ a.gap = [] ∧ value = "***".toList := by
  have mask : "=***".toList ++ written = '=' :: ("***".toList ++ written) := rfl
  rw [mask] at text
  have same_word : a.word = front := by
    have words := congrArg (List.takeWhile (!isSeparator ·)) text
    rwa [takeWhile_word _ (fun c => a.isSeparator_of_mem_word) a.separates,
      takeWhile_word _ letters (by decide)] at words
  rw [same_word] at text
  injection List.append_cancel_left text with separator behind
  have no_gap : a.gap = [] := by
    by_contra some_gap
    obtain ⟨c, others, gap⟩ := List.exists_cons_of_ne_nil some_gap
    rw [gap] at behind
    injection behind with star _
    have blank : isBlank c = true := a.blank_gap c (gap ▸ List.mem_cons_self)
    rw [star] at blank
    exact absurd blank (by decide)
  refine ⟨separator, no_gap, ?_⟩
  rw [no_gap, List.nil_append] at behind
  have solid : "***".toList.all (!isBlank ·) = true := by decide
  have values := congrArg (List.takeWhile (!isBlank ·)) behind
  rwa [List.takeWhile_append_of_pos (by simpa using isValue.2), takeWhile_of_ends a.ends,
    List.takeWhile_append_of_pos (List.all_eq_true.mp solid), takeWhile_of_ends ends, List.append_nil,
    List.append_nil] at values

/-- What stands in front of an announcement does not matter. -/
theorem isMasked_iff {s : List Char} :
    IsMasked s ↔ ∀ (a : Announcement) (before value : List Char), IsValue value →
      s = before ++ (a.word ++ a.separator :: (a.gap ++ (value ++ a.after))) →
        a.separator = '=' ∧ a.gap = [] ∧ value = "***".toList := by
  constructor
  · intro masked a before value isValue text
    exact masked (a.behind before) value isValue (text.trans (a.text_behind before value).symm)
  · intro masked a value isValue text
    exact masked a a.before value isValue (text.trans (a.text_eq value))

theorem IsMasked.suffix {front s : List Char} (masked : IsMasked (front ++ s)) : IsMasked s := by
  refine isMasked_iff.mpr fun a before value isValue text => ?_
  exact isMasked_iff.mp masked a (front ++ before) value isValue (by rw [text, List.append_assoc])

theorem IsMasked.tail {c : Char} {s : List Char} (masked : IsMasked (c :: s)) : IsMasked s :=
  @suffix [c] s masked

/-! ### What is masked

After the first sweep every announcement that is left announces a mask.  The second sweep then has nothing to
replace, and neither has any later one. -/

section Masked

variable {s t : List Char}

/-- What is announced with nothing in front is read by the rule. -/
theorem Announcement.secretRule_ne_none (a : Announcement) {value : List Char} (isValue : IsValue value) :
    secretRule (a.word ++ a.separator :: (a.gap ++ (value ++ a.after))) ≠ none := by
  have text : a.word ++ a.separator :: (a.gap ++ (value ++ a.after)) =
      a.head ++ (a.gap ++ (value ++ a.after)) := by simp [head]
  rw [text, a.secretRule_head, valueLength?_of_run a.blank_gap isValue a.ends]
  exact Option.some_ne_none _

/-- What is written at the beginning and announces a value was read as the announcement of one. -/
theorem exists_announcement_of_swept {rule : Rule} (blank : PassesBlank rule) (adds : AddsNone rule)
    (swept : Swept rule s t) {a : Announcement} {value : List Char} (isValue : IsValue value)
    (text : t = a.word ++ a.separator :: (a.gap ++ (value ++ a.after))) :
    ∃ (b : Announcement) (own : List Char), IsValue own ∧
      s = b.word ++ b.separator :: (b.gap ++ (own ++ b.after)) := by
  have announced : Announces (a.word.map fold) t := text ▸ a.announces_word isValue
  have lower := isLower_of_mem_secretWords _ a.map_fold_word_mem
  exact (announced.of_swept blank adds lower swept).exists_announcement a.map_fold_word_mem

namespace Announcement

variable (a : Announcement) {value front late written : List Char} (isValue : IsValue value)
  (text : a.word ++ a.separator :: (a.gap ++ (value ++ a.after)) = late ++ written)
include isValue text

/-- An announcement that begins in what was written for another is the same one, or a part of it. -/
theorem masked_of_within_mask (b : Announcement) (nonempty : late ≠ [])
    (mask : b.word ++ "=***".toList = front ++ late) (ends : written.head?.all isBlank = true) :
    a.separator = '=' ∧ a.gap = [] ∧ value = "***".toList := by
  rcases List.append_eq_append_iff.mp mask with ⟨inside, -, rest_of_mask⟩ | ⟨inside, word, rfl⟩
  · -- It does not begin in the mask or at the sign of equality, where no letter is.
    obtain ⟨d, late, rfl⟩ := List.exists_cons_of_ne_nil nonempty
    obtain ⟨c, letters, word⟩ := List.exists_cons_of_ne_nil a.word_ne_nil
    rw [word] at text
    injection text with same _
    subst same
    have no_letters : "=***".toList.all (fun d => !(fold d).isLower) = true := by decide
    have other := List.all_eq_true.mp no_letters c
      (rest_of_mask ▸ List.mem_append_right inside List.mem_cons_self)
    rw [a.isLower_fold_of_mem_word (word ▸ List.mem_cons_self)] at other
    cases other
  · refine a.masked_of_mask isValue (fun c member => b.isSeparator_of_mem_word ?_) ends
      (text.trans (List.append_assoc _ _ _))
    rw [word]
    exact List.mem_append_right front member

omit isValue in
/-- No announcement begins in the text that stands for a path: the word would hold the last slash of it. -/
theorem not_within_pathMark (nonempty : late ≠ []) (mark : pathMark = front ++ late) : False := by
  have inside : late ∈ pathMark.tails := (List.mem_tails _ _).mpr ⟨front, mark.symm⟩
  have slash : ∀ late ∈ pathMark.tails, late ≠ [] → '/' ∈ late := by decide
  have no_separator : pathMark.all (!isSeparator ·) = true := by decide
  have words := congrArg (List.takeWhile (!isSeparator ·)) text
  rw [takeWhile_word _ (fun c => a.isSeparator_of_mem_word) a.separates,
    List.takeWhile_append_of_pos fun c member =>
      List.all_eq_true.mp no_separator c (mark ▸ List.mem_append_right front member)] at words
  have lower_slash := a.isLower_fold_of_mem_word
    (words ▸ List.mem_append_left _ (slash late inside nonempty))
  exact absurd lower_slash (by decide)

end Announcement

/-- Once its secrets are replaced, a text announces nothing but masks. -/
theorem isMasked_of_swept (swept : Swept secretRule s t) : IsMasked t := by
  induction swept with
  | nil =>
      refine isMasked_iff.mpr fun a before value _ text => ?_
      simp at text
  | @copied c rest written passes onwards ih =>
      refine isMasked_iff.mpr fun a before value isValue text => ?_
      cases before with
      | nil =>
          obtain ⟨b, own, isOwn, read⟩ := exists_announcement_of_swept passesBlank_secretRule
            addsNone_secretRule (.copied passes onwards) isValue text
          rw [read] at passes
          exact absurd passes (b.secretRule_ne_none isOwn)
      | cons d before =>
          injection text with _ text
          exact isMasked_iff.mp ih a before value isValue text
  | @replaced covered rest replacement written _ applies onwards ih =>
      refine isMasked_iff.mpr fun a before value isValue text => ?_
      obtain ⟨b, own, isOwn, rfl, rfl, rfl⟩ := announcement_of_covered applies
      rcases List.append_eq_append_iff.mp text with ⟨between, -, follows⟩ | ⟨late, mask, follows⟩
      · exact isMasked_iff.mp ih a between value isValue follows
      · by_cases behind_mask : late = []
        · subst behind_mask
          exact isMasked_iff.mp ih a [] value isValue follows.symm
        · exact a.masked_of_within_mask isValue follows b behind_mask mask
            (onwards.ends passesBlank_secretRule b.ends)

/-- No slash is in a word, or in the mask behind it. -/
theorem Announcement.ne_slash_of_mem_masked (a : Announcement) {c : Char}
    (member : c ∈ a.word ++ "=***".toList) : c ≠ '/' := by
  rintro rfl
  rcases List.mem_append.mp member with inWord | inMask
  · exact absurd (a.isLower_fold_of_mem_word inWord) (by decide)
  · exact absurd inMask (by decide)

/-- Where a masked text begins with an announcement, that is written as it is read. -/
theorem IsMasked.masked_at_start (masked : IsMasked s) (swept : Swept pathRule s t) {a : Announcement}
    {value : List Char} (isValue : IsValue value)
    (text : t = a.word ++ a.separator :: (a.gap ++ (value ++ a.after))) :
    a.separator = '=' ∧ a.gap = [] ∧ value = "***".toList := by
  obtain ⟨b, own, isOwn, read⟩ :=
    exists_announcement_of_swept passesBlank_pathRule addsNone_pathRule swept isValue text
  obtain ⟨separator, gap, mask⟩ := isMasked_iff.mp masked b [] own isOwn read
  have split : s = b.word ++ "=***".toList ++ b.after := by
    rw [read, mask, separator, gap, List.append_assoc]
    rfl
  rw [split] at swept
  obtain ⟨written, copy, onwards⟩ := swept.copies fun d member =>
    pathRule_of_ne (b.ne_slash_of_mem_masked member)
  exact a.masked_of_mask isValue (fun d => b.isSeparator_of_mem_word)
    (onwards.ends passesBlank_pathRule b.ends)
    (text.symm.trans (copy.trans (List.append_assoc _ _ _)))

/-- Replacing paths leaves masks as they are, and announces nothing. -/
theorem IsMasked.of_swept_pathRule (swept : Swept pathRule s t) (masked : IsMasked s) : IsMasked t := by
  induction swept with
  | nil => exact masked
  | @copied c rest written passes onwards ih =>
      refine isMasked_iff.mpr fun a before value isValue text => ?_
      cases before with
      | nil => exact masked.masked_at_start (.copied passes onwards) isValue text
      | cons d before =>
          injection text with _ text
          exact isMasked_iff.mp (ih masked.tail) a before value isValue text
  | replaced _ applies _ ih =>
      refine isMasked_iff.mpr fun a before value isValue text => ?_
      obtain ⟨rfl, -⟩ := covers_of_pathRule applies
      rcases List.append_eq_append_iff.mp text with ⟨between, -, follows⟩ | ⟨late, mark, follows⟩
      · exact isMasked_iff.mp (ih masked.suffix) a between value isValue follows
      · by_cases behind_mark : late = []
        · subst behind_mark
          exact isMasked_iff.mp (ih masked.suffix) a [] value isValue follows.symm
        · exact (a.not_within_pathMark follows behind_mark mark).elim

/-- Where everything that is announced is masked, there is nothing to replace. -/
theorem IsMasked.fixed (masked : IsMasked s) (swept : Swept secretRule s t) : t = s := by
  induction swept with
  | nil => rfl
  | @copied c rest written _ _ ih => rw [ih masked.tail]
  | replaced _ applies _ ih =>
      obtain ⟨a, value, isValue, rfl, rfl, rfl⟩ := announcement_of_covered applies
      obtain ⟨separator, gap, rfl⟩ := isMasked_iff.mp masked a [] value isValue (by simp)
      rw [ih masked.suffix, separator, gap]
      rfl

end Masked

/-! ### What is reported

Both sweeps put together, and repeated. -/

theorem swept_secretRule (s : List Char) : Swept secretRule s (sweep secretRule s) :=
  swept_sweep isBounded_secretRule s

/-- Nothing but masks is announced once a text was made safe. -/
theorem isMasked_redact (s : List Char) : IsMasked (redact s) :=
  (isMasked_of_swept (swept_secretRule s)).of_swept_pathRule (swept_pathRule _)

/-- Making it safe again changes nothing. -/
theorem redact_redact (s : List Char) : redact (redact s) = redact s := by
  have secrets : sweep secretRule (redact s) = redact s :=
    (isMasked_redact s).fixed (swept_secretRule _)
  have paths : sweep pathRule (redact s) = redact s :=
    (swept_pathRule _).eq_of_passed fun before path split =>
      pathRule_eq_none_iff.mpr (not_leadsIn_redact split)
  rw [redact, secrets, paths]

/-- A text that was made safe and not cut stays the same when it is made safe again.  Every value that it
announces, wherever the reading of it may begin, is the mask, and no path in it leads into a credential
directory. -/
theorem sanitized_is_fixed (m : String) (whole : byteLength (redact m.toList) ≤ byteLimit) :
    sanitize (sanitize m) = sanitize m ∧ IsMasked (sanitize m).toList ∧
      ∀ before path, (sanitize m).toList = before ++ path → ¬ LeadsIn path := by
  have written : (sanitize m).toList = redact m.toList := sanitize_of_fits whole
  have again : redact (sanitize m).toList = redact m.toList := by rw [written, redact_redact]
  refine ⟨?_, ?_, ?_⟩
  · apply String.toList_injective
    rw [sanitize_of_fits (again.symm ▸ whole), again, written]
  · exact written ▸ isMasked_redact _
  · rw [written]
    exact fun _ _ => not_leadsIn_redact

/-- A password and a path, replaced once. -/
theorem password_and_path_fixed :
    byteLength (redact "Password: hunter2 or /srv/relay/.ssh/id_rsa".toList) ≤ byteLimit ∧
      sanitize "Password: hunter2 or /srv/relay/.ssh/id_rsa" = "Password=*** or /***REDACTED***/" ∧
      sanitize (sanitize "Password: hunter2 or /srv/relay/.ssh/id_rsa") =
        sanitize "Password: hunter2 or /srv/relay/.ssh/id_rsa" := by
  have fits : byteLength (redact "Password: hunter2 or /srv/relay/.ssh/id_rsa".toList) ≤ byteLimit := by
    decide +kernel
  exact ⟨fits, by decide +kernel, (sanitized_is_fixed _ fits).1⟩

end Redaction

end Intake
