/-
Module: Intake.Proofs.Toml.Strings
Purpose: Strings are read back from the text that is written for them, whichever of the four forms it has.
Main exports: Toml.readString?_stringText

Inside quotes every character is written as something that is read as that character, whatever follows.  Only
quotes in strings of several lines are read in runs, so there the text is taken together with the quotes that
stand in front of it.
-/
import Intake.Proofs.Lists
import Intake.Toml.Reader
import Intake.Toml.Writer

namespace Intake

namespace Toml

/-! ### Escapes

Inside double quotes some characters are escaped, and the reader turns each escape back into its character. -/

/-- A character inside quotes: as it is, as the end of a line, or as an escape.  An escape is no backslash at the
end of a line. -/
inductive Written (linesKept : Bool) (c : Char) : List Char → Prop where
  | plain (plain : isPlain c = true) (quote : c ≠ '"') (backslash : c ≠ '\\') : Written linesKept c [c]
  | line (kept : linesKept = true) (newline : c = '\n') : Written linesKept c ['\n']
  | escape (body : List Char) (reads : ∀ rest, readEscape? (body ++ rest) = some (c, rest))
      (noEnd : ∀ rest, afterLineEnding? (body ++ rest) = none) : Written linesKept c ('\\' :: body)

theorem isPlain_of_printable {c : Char} (printable : ¬(c.toNat < 0x20 ∨ c.toNat = 0x7F)) : isPlain c = true := by
  simp only [isPlain, isCommentChar, Bool.or_eq_true, Bool.and_eq_true, decide_eq_true_eq, bne_iff_ne]
  omega

/-- Four digits name the control characters. -/
theorem hexChar?_upperHex4 {n : Nat} (control : n < 0x20 ∨ n = 0x7F) :
    hexChar? (upperHex4 n) = some (Char.ofNat n) := by
  have low : ∀ n < 0x20, hexChar? (upperHex4 n) = some (Char.ofNat n) := by decide
  rcases control with small | rfl
  · exact low n small
  · decide

/-- All characters but quotes are written without regard to what stands around them. -/
theorem escapedText_cons (linesKept : Bool) {c : Char} (other : c ≠ '"') :
    ∃ written, Written linesKept c written ∧ ∀ quotesKept quotesSoFar rest,
      escapedText quotesKept linesKept quotesSoFar (c :: rest) =
        written ++ escapedText quotesKept linesKept 0 rest := by
  by_cases backspace : c = '\x08'
  · subst backspace
    exact ⟨['\\', 'b'], .escape ['b'] (fun _ => rfl) fun _ => rfl, fun _ _ _ => rfl⟩
  by_cases tab : c = '\t'
  · subst tab
    exact ⟨['\\', 't'], .escape ['t'] (fun _ => rfl) fun _ => rfl, fun _ _ _ => rfl⟩
  by_cases newline : c = '\n'
  · subst newline
    cases linesKept with
    | true => exact ⟨['\n'], .line rfl rfl, fun _ _ _ => rfl⟩
    | false => exact ⟨['\\', 'n'], .escape ['n'] (fun _ => rfl) fun _ => rfl, fun _ _ _ => rfl⟩
  by_cases feed : c = '\x0c'
  · subst feed
    exact ⟨['\\', 'f'], .escape ['f'] (fun _ => rfl) fun _ => rfl, fun _ _ _ => rfl⟩
  by_cases ret : c = '\r'
  · subst ret
    exact ⟨['\\', 'r'], .escape ['r'] (fun _ => rfl) fun _ => rfl, fun _ _ _ => rfl⟩
  by_cases backslash : c = '\\'
  · subst backslash
    exact ⟨['\\', '\\'], .escape ['\\'] (fun _ => rfl) fun _ => rfl, fun _ _ _ => rfl⟩
  simp only [escapedText, if_neg other, if_neg backspace, if_neg tab, if_neg newline, if_neg feed, if_neg ret,
    if_neg backslash]
  refine ⟨_, ?_, fun _ _ _ => rfl⟩
  split
  · next control =>
      refine .escape ('u' :: upperHex4 c.toNat) (fun rest => ?_) fun _ => rfl
      have named := hexChar?_upperHex4 control
      rw [Char.ofNat_toNat] at named
      show (hexChar? (upperHex4 c.toNat)).map (·, rest) = _
      rw [named]
      rfl
  · next printable => exact .plain (isPlain_of_printable printable) other backslash

theorem written_quote (linesKept : Bool) : Written linesKept '"' ['\\', '"'] :=
  .escape ['"'] (fun _ => rfl) fun _ => rfl

/-- Where no quotes are kept, this holds of all characters. -/
theorem escapedText_cons_basic (c : Char) (s : List Char) : ∃ written, Written false c written ∧
    escapedText 0 false 0 (c :: s) = written ++ escapedText 0 false 0 s := by
  by_cases quote : c = '"'
  · exact quote ▸ ⟨_, written_quote false, rfl⟩
  · obtain ⟨written, h, text⟩ := escapedText_cons false quote
    exact ⟨written, h, text 0 0 s⟩

theorem Written.nonempty {linesKept : Bool} {c : Char} {written : List Char} (h : Written linesKept c written) :
    written ≠ [] := by
  cases h <;> exact List.cons_ne_nil _ _

theorem ne_return_of_isPlain {c : Char} (plain : isPlain c = true) : c ≠ '\r' := by
  rintro rfl
  cases plain

/-- Nothing that is written begins with a quote or a carriage return. -/
theorem Written.head {linesKept : Bool} {c : Char} {written : List Char} (h : Written linesKept c written)
    (rest : List Char) : (written ++ rest).head? = some '\\' ∨
      (written ++ rest).head? = some c ∧ c ≠ '"' ∧ c ≠ '\r' := by
  cases h with
  | plain plain quote _ => exact .inr ⟨rfl, quote, ne_return_of_isPlain plain⟩
  | line _ newline =>
      subst newline
      exact .inr ⟨rfl, by decide⟩
  | escape => exact .inl rfl

theorem Written.head_ne {linesKept : Bool} {c : Char} {written : List Char} (h : Written linesKept c written)
    (rest : List Char) : (written ++ rest).head? ≠ some '"' := by
  intro same
  rcases h.head rest with escape | ⟨own, quote, -⟩
  · exact absurd (Option.some.inj (escape.symm.trans same)) (by decide)
  · exact quote (Option.some.inj (own.symm.trans same))

/-! ### One line

On one line, all quotes and ends of lines are escaped or absent, so the first quote ends the string. -/

/-- A character that is written in a string on one line is read as itself. -/
theorem Written.readBasic? {c : Char} {written : List Char} (h : Written false c written) (fuel : Nat)
    (rest : List Char) :
    readBasic? (fuel + 1) (written ++ rest) = (readBasic? fuel rest).map fun (text, rest) => (c :: text, rest) := by
  cases h with
  | plain plain quote backslash =>
      rw [Toml.readBasic?.eq_def]
      simp only [List.singleton_append, if_pos plain]
  | line kept => cases kept
  | escape body reads _ =>
      rw [List.cons_append, Toml.readBasic?.eq_def]
      simp only [reads, Option.bind_some]

/-- An escaped text is read back up to its quote. -/
theorem readBasic?_escapedText (s rest : List Char) : ∀ fuel, (escapedText 0 false 0 s).length < fuel →
    readBasic? fuel (escapedText 0 false 0 s ++ '"' :: rest) = some (s, rest) := by
  induction s with
  | nil =>
      intro fuel enough
      obtain ⟨fuel, rfl⟩ := Nat.exists_eq_add_one.mpr (Nat.zero_lt_of_lt enough)
      rfl
  | cons c s ih =>
      intro fuel enough
      obtain ⟨fuel, rfl⟩ := Nat.exists_eq_add_one.mpr (Nat.zero_lt_of_lt enough)
      obtain ⟨written, h, text⟩ := escapedText_cons_basic c s
      have some := List.length_pos_iff.mpr h.nonempty
      rw [text, List.length_append] at enough
      rw [text, List.append_assoc, h.readBasic?, ih fuel (by omega)]
      rfl

/-- What has neither control characters nor quotes in it is read as it is. -/
theorem readLiteral?_of_plain {s : List Char} (plain : ∀ c ∈ s, isPlain c = true) (quote : '\'' ∉ s)
    (rest : List Char) : readLiteral? (s ++ '\'' :: rest) = some (s, rest) := by
  have inside : ∀ c ∈ s, (isPlain c && c != '\'') = true := fun c member => by
    have other : c ≠ '\'' := fun same => quote (same ▸ member)
    simp [plain c member, other]
  have stops : Lists.Stops (fun c => isPlain c && c != '\'') ('\'' :: rest) := Lists.stops_cons (by decide)
  simp only [readLiteral?, Lists.takeWhile_append_of_stops inside stops, Lists.dropWhile_append_of_stops inside stops]

/-! ### Several lines

On several lines, up to two quotes in a row may stand for themselves.  The reader takes runs of quotes as a
whole and has to tell whether a run ends the string. -/

/-- A reader of strings of several lines, which reads quotes in runs. -/
def ReadsRuns (quote : Char) (read : Nat → List Char → Option (List Char × List Char)) : Prop :=
  ∀ fuel s, read (fuel + 1) (quote :: s) =
    (quoteRun? ((quote :: s).takeWhile (· == quote)).length).bind fun (kept, closed) =>
      let quotes := List.replicate kept quote
      let rest := (quote :: s).dropWhile (· == quote)
      if closed then some (quotes, rest)
      else (read fuel rest).map fun (text, rest) => (quotes ++ text, rest)

theorem readsRuns_readMultiBasic : ReadsRuns '"' readMultiBasic? := fun _ _ => rfl

theorem readsRuns_readMultiLiteral : ReadsRuns '\'' readMultiLiteral? := fun _ _ => rfl

/-- What a reader makes of a text with fuel for all its characters. -/
def Reads (read : Nat → List Char → Option (List Char × List Char)) (text s rest : List Char) : Prop :=
  ∀ fuel, text.length < fuel → read fuel text = some (s, rest)

section

variable {quote : Char} {read : Nat → List Char → Option (List Char × List Char)} {q : Nat}
  {text s rest : List Char}

theorem takeWhile_run (head : text.head? ≠ some quote) :
    (List.replicate q quote ++ text).takeWhile (· == quote) = List.replicate q quote :=
  Lists.takeWhile_append_of_stops (fun _ member => beq_iff_eq.mpr (List.eq_of_mem_replicate member))
    fun _ first => beq_false_of_ne fun same => head (same ▸ first)

theorem dropWhile_run (head : text.head? ≠ some quote) :
    (List.replicate q quote ++ text).dropWhile (· == quote) = text :=
  Lists.dropWhile_append_of_stops (fun _ member => beq_iff_eq.mpr (List.eq_of_mem_replicate member))
    fun _ first => beq_false_of_ne fun same => head (same ▸ first)

/-- Fewer than three quotes belong to the string. -/
theorem ReadsRuns.run (runs : ReadsRuns quote read) (few : q ≤ 2) (head : text.head? ≠ some quote)
    (behind : Reads read text s rest) :
    Reads read (List.replicate q quote ++ text) (List.replicate q quote ++ s) rest := by
  rcases Nat.eq_zero_or_pos q with rfl | positive
  · exact behind
  · obtain ⟨k, rfl⟩ := Nat.exists_eq_add_one.mpr positive
    intro fuel enough
    obtain ⟨fuel, rfl⟩ := Nat.exists_eq_add_one.mpr (Nat.zero_lt_of_lt enough)
    have split : List.replicate (k + 1) quote ++ text = quote :: (List.replicate k quote ++ text) := rfl
    have below := behind fuel (by rw [split, List.length_cons, List.length_append] at enough; omega)
    rw [split, runs, ← split, takeWhile_run head, dropWhile_run head, List.length_replicate, quoteRun?,
      if_pos (by omega), Option.bind_some]
    simp only [Bool.false_eq_true, if_false, below, Option.map_some]

/-- Three quotes close the string, and up to two in front of them belong to it. -/
theorem ReadsRuns.close (runs : ReadsRuns quote read) (few : q ≤ 2) (head : rest.head? ≠ some quote) :
    Reads read (List.replicate (q + 3) quote ++ rest) (List.replicate q quote) rest := by
  intro fuel enough
  obtain ⟨fuel, rfl⟩ := Nat.exists_eq_add_one.mpr (Nat.zero_lt_of_lt enough)
  have split : List.replicate (q + 3) quote ++ rest = quote :: (List.replicate (q + 2) quote ++ rest) := rfl
  rw [split, runs, ← split, takeWhile_run head, dropWhile_run head, List.length_replicate, quoteRun?,
    if_neg (by omega), if_pos (by omega), Option.bind_some]
  simp only [if_true, Nat.add_sub_cancel]

theorem Reads.cons {c : Char} {written : List Char} (nonempty : written ≠ [])
    (step : ∀ fuel, read (fuel + 1) (written ++ text) = (read fuel text).map fun (text, rest) => (c :: text, rest))
    (behind : Reads read text s rest) : Reads read (written ++ text) (c :: s) rest := by
  intro fuel enough
  obtain ⟨fuel, rfl⟩ := Nat.exists_eq_add_one.mpr (Nat.zero_lt_of_lt enough)
  have some := List.length_pos_iff.mpr nonempty
  rw [List.length_append] at enough
  rw [step, behind fuel (by omega)]
  rfl

end

/-- A character that is written in a string of several lines is read as itself. -/
theorem Written.readMultiBasic? {c : Char} {written : List Char} (h : Written true c written) (fuel : Nat)
    (rest : List Char) :
    readMultiBasic? (fuel + 1) (written ++ rest) =
      (readMultiBasic? fuel rest).map fun (text, rest) => (c :: text, rest) := by
  cases h with
  | plain plain quote backslash =>
      have noReturn := ne_return_of_isPlain plain
      rw [Toml.readMultiBasic?.eq_def]
      simp only [List.singleton_append]
      split
      · next same => cases same
      · next same => exact absurd (List.cons.inj same).1 quote
      · next same => exact absurd (List.cons.inj same).1 backslash
      · next same => exact absurd (List.cons.inj same).1 noReturn
      · next same =>
          cases same
          simp only [plain, Bool.true_or, if_true]
  | line _ newline =>
      subst newline
      rfl
  | escape body reads noEnd =>
      rw [List.cons_append, Toml.readMultiBasic?.eq_def]
      simp only [noEnd, reads, Option.bind_some]

/-- An escaped text of several lines is read back. -/
theorem reads_escapedText {rest : List Char} (head : rest.head? ≠ some '"') (s : List Char) : ∀ q ≤ 2,
    Reads readMultiBasic? (List.replicate q '"' ++ (escapedText 2 true q s ++ ("\"\"\"".toList ++ rest)))
      (List.replicate q '"' ++ s) rest := by
  induction s with
  | nil =>
      intro q few
      have closing : List.replicate q '"' ++ (escapedText 2 true q [] ++ ("\"\"\"".toList ++ rest)) =
          List.replicate (q + 3) '"' ++ rest := by
        rw [← List.replicate_append_replicate, List.append_assoc]
        rfl
      rw [closing, List.append_nil]
      exact readsRuns_readMultiBasic.close few head
  | cons c s ih =>
      intro q few
      by_cases quote : c = '"'
      · subst quote
        rcases Nat.lt_or_ge q 2 with kept | enough
        · -- the run grows by one
          have further := ih (q + 1) (by omega)
          have text : escapedText 2 true q ('"' :: s) = '"' :: escapedText 2 true (q + 1) s := by
            simp only [escapedText, if_true, if_pos kept]
          rw [text]
          simpa only [List.replicate_succ', List.append_assoc, List.singleton_append, List.cons_append, List.nil_append]
            using further
        · obtain rfl : q = 2 := by omega
          have text : escapedText 2 true 2 ('"' :: s) = ['\\', '"'] ++ escapedText 2 true 0 s := rfl
          rw [text, List.append_assoc]
          refine readsRuns_readMultiBasic.run few (fun same => absurd (Option.some.inj same) (by decide)) ?_
          exact Reads.cons (List.cons_ne_nil _ _) (fun _ => rfl) (ih 0 (Nat.zero_le _))
      · obtain ⟨written, h, text⟩ := escapedText_cons true quote
        rw [text, List.append_assoc]
        refine readsRuns_readMultiBasic.run few (h.head_ne _) ?_
        exact Reads.cons h.nonempty (fun fuel => h.readMultiBasic? fuel _) (ih 0 (Nat.zero_le _))

theorem le_longestRun (c : Char) (q : Nat) (s : List Char) : q ≤ longestRun c q s := by
  induction s generalizing q with
  | nil => exact Nat.le_refl q
  | cons d s ih =>
      rw [longestRun]
      split
      · exact (Nat.le_succ q).trans (ih (q + 1))
      · exact Nat.le_max_left _ _

theorem not_mem_of_longestRun {c : Char} {s : List Char} (none : longestRun c 0 s = 0) : c ∉ s := by
  induction s with
  | nil => exact List.not_mem_nil
  | cons d s ih =>
      rw [longestRun] at none
      split at none
      · have some := le_longestRun c 1 s
        rw [Nat.zero_add] at none
        omega
      · next other =>
          rw [Nat.zero_max] at none
          exact List.not_mem_cons_of_ne_of_not_mem (fun same => other same.symm) (ih none)

/-- A text of several lines that needs no escapes is read back as it is written. -/
theorem reads_literal {rest : List Char} (head : rest.head? ≠ some '\'') (s : List Char)
    (plain : ∀ c ∈ s, (isPlain c || c == '\n') = true) : ∀ q, longestRun '\'' q s ≤ 2 →
    Reads readMultiLiteral? (List.replicate q '\'' ++ (s ++ ("'''".toList ++ rest)))
      (List.replicate q '\'' ++ s) rest := by
  induction s with
  | nil =>
      intro q few
      have closing : List.replicate q '\'' ++ ([] ++ ("'''".toList ++ rest)) =
          List.replicate (q + 3) '\'' ++ rest := by
        rw [← List.replicate_append_replicate, List.append_assoc]
        rfl
      rw [closing, List.append_nil]
      exact readsRuns_readMultiLiteral.close few head
  | cons c s ih =>
      intro q few
      have plain' : ∀ d ∈ s, (isPlain d || d == '\n') = true := fun d member =>
        plain d (List.mem_cons_of_mem _ member)
      rw [longestRun] at few
      split at few
      · next quote =>
          subst quote
          have further := ih plain' (q + 1) few
          simpa only [List.replicate_succ', List.append_assoc, List.singleton_append, List.cons_append, List.nil_append]
            using further
      · next quote =>
          have own := plain c List.mem_cons_self
          have noReturn : c ≠ '\r' := by
            rintro rfl
            cases own
          have step (fuel : Nat) (text : List Char) : readMultiLiteral? (fuel + 1) ([c] ++ text) =
              (readMultiLiteral? fuel text).map fun (text, rest) => (c :: text, rest) := by
            rw [readMultiLiteral?.eq_def]
            simp only [List.singleton_append]
            split
            · next same => cases same
            · next same => exact absurd (List.cons.inj same).1 quote
            · next same => exact absurd (List.cons.inj same).1 noReturn
            · next same =>
                cases same
                rw [if_pos own]
          refine readsRuns_readMultiLiteral.run (by omega) (fun same => quote (Option.some.inj same)) ?_
          show Reads readMultiLiteral? ([c] ++ (s ++ ("'''".toList ++ rest))) (c :: s) rest
          exact Reads.cons (List.cons_ne_nil c []) (step · _) (ih plain' 0 (by omega))

/-! ### The four forms

A string is written in the simplest form that holds it, and for each form the reader that this form begins is
the right one. -/

/-- Characters that are no control characters stand for themselves. -/
theorem plain_of_not_isControl {s : List Char} (none : s.any isControl = false) :
    ∀ c ∈ s, (isPlain c || c == '\n') = true := by
  intro c member
  have own : isControl c = false := by simpa using List.any_eq_false.mp none c member
  simp only [isControl, Bool.and_eq_false_iff, bne_eq_false_iff_eq, Bool.or_eq_false_iff,
    decide_eq_false_iff_not, beq_eq_false_iff_ne] at own
  simp only [isPlain, isCommentChar, Bool.or_eq_true, beq_iff_eq, Bool.and_eq_true, decide_eq_true_eq,
    bne_iff_ne]
  rcases own with (tab | newline) | ⟨low, delete⟩
  · exact .inl (.inl tab)
  · exact .inr newline
  · exact .inl (.inr ⟨Nat.not_lt.mp low, delete⟩)

/-- An empty first line is skipped, and otherwise there is no end of line to skip. -/
theorem skipFirstNewline_openingLine {s text : List Char}
    (head : '\n' ∉ s → text.head? ≠ some '\n' ∧ text.head? ≠ some '\r') :
    skipFirstNewline (openingLine (Traits.of s) ++ text) = text := by
  rw [openingLine]
  split
  · rfl
  · next single =>
      have none : '\n' ∉ s := by simpa [Traits.of] using single
      obtain ⟨newline, ret⟩ := head none
      rw [List.nil_append, skipFirstNewline.eq_def]
      split
      · exact absurd rfl newline
      · exact absurd rfl ret
      · rfl

section

variable {t : Traits}

theorem literal_of_quotingOf (form : quotingOf t = .literal) :
    t.control = false ∧ t.singleRun = 0 ∧ t.newline = false := by
  rw [quotingOf] at form
  split_ifs at form with basic literal
  simpa [and_assoc] using literal

theorem multiLiteral_of_quotingOf (form : quotingOf t = .multiLiteral) :
    t.control = false ∧ t.singleRun ≤ 2 := by
  rw [quotingOf] at form
  split_ifs at form with basic literal multiBasic multiLiteral
  simpa using multiLiteral

end

section

variable {s t text rest : List Char}

/-- Double quotes begin an escaped string. -/
theorem readString?_basic (single : ∀ behind, t ≠ '"' :: '"' :: behind)
    (reads : readBasic? (t.length + 2) t = some (text, rest)) :
    readString? ('"' :: t) = some (String.ofList text, rest) := by
  simp only [readString?, List.length_cons, reads, Option.map_some]

/-- Single quotes begin a literal one. -/
theorem readString?_literal (single : ∀ behind, t ≠ '\'' :: '\'' :: behind)
    (reads : readLiteral? t = some (text, rest)) :
    readString? ('\'' :: t) = some (String.ofList text, rest) := by
  simp only [readString?, reads, Option.map_some]

/-- Three double quotes begin an escaped string of several lines. -/
theorem readString?_multiBasic (head : '\n' ∉ s → t.head? ≠ some '\n' ∧ t.head? ≠ some '\r')
    (reads : Reads readMultiBasic? t text rest) :
    readString? ("\"\"\"".toList ++ (openingLine (Traits.of s) ++ t)) = some (String.ofList text, rest) := by
  show (readMultiBasic? _ (skipFirstNewline (openingLine (Traits.of s) ++ t))).map _ = _
  rw [skipFirstNewline_openingLine head, reads _ (by simp only [List.length_append]; omega)]
  rfl

/-- Three single quotes begin a literal one. -/
theorem readString?_multiLiteral (head : '\n' ∉ s → t.head? ≠ some '\n' ∧ t.head? ≠ some '\r')
    (reads : Reads readMultiLiteral? t text rest) :
    readString? ("'''".toList ++ (openingLine (Traits.of s) ++ t)) = some (String.ofList text, rest) := by
  show (readMultiLiteral? _ (skipFirstNewline (openingLine (Traits.of s) ++ t))).map _ = _
  rw [skipFirstNewline_openingLine head, reads _ (by simp only [List.length_append]; omega)]
  rfl

end

/-- A string is read back from its text at the end of a line. -/
theorem readString?_stringText (s rest : List Char) :
    readString? (stringText s ++ '\n' :: rest) = some (String.ofList s, '\n' :: rest) := by
  simp only [stringText]
  cases form : quotingOf (Traits.of s) with
  | basic =>
      simp only [List.append_assoc, List.cons_append, List.nil_append]
      have single : ∀ behind, escapedText 0 false 0 s ++ '"' :: '\n' :: rest ≠ '"' :: '"' :: behind := by
        intro behind same
        cases s with
        | nil => cases same
        | cons c s =>
            obtain ⟨written, h, text⟩ := escapedText_cons_basic c s
            rw [text, List.append_assoc] at same
            exact h.head_ne _ (congrArg List.head? same)
      exact readString?_basic single (readBasic?_escapedText s _ _ (by rw [List.length_append]; omega))
  | literal =>
      obtain ⟨control, quotes, newline⟩ := literal_of_quotingOf form
      have single : '\n' ∉ s := by simpa [Traits.of] using newline
      have plain : ∀ c ∈ s, isPlain c = true := fun c member => by
        have own := plain_of_not_isControl control c member
        have other : c ≠ '\n' := fun same => single (same ▸ member)
        simpa [other] using own
      have noQuote : '\'' ∉ s := not_mem_of_longestRun quotes
      simp only [List.append_assoc, List.cons_append, List.nil_append]
      refine readString?_literal (fun behind same => ?_) (readLiteral?_of_plain plain noQuote _)
      cases s with
      | nil => cases same
      | cons c s => exact noQuote ((List.cons.inj same).1 ▸ List.mem_cons_self)
  | multiBasic =>
      simp only [List.append_assoc]
      refine readString?_multiBasic (fun single => ?_) (reads_escapedText (by simp) s 0 (Nat.zero_le _))
      cases s with
      | nil => simp [escapedText]
      | cons c s =>
          by_cases quote : c = '"'
          · subst quote
            simp [escapedText]
          · obtain ⟨written, h, text⟩ := escapedText_cons true quote
            rw [text, List.append_assoc]
            rcases h.head (escapedText 2 true 0 s ++ ("\"\"\"".toList ++ '\n' :: rest)) with head | ⟨head, -, ret⟩
            · rw [head]
              decide
            · rw [head]
              have newline : c ≠ '\n' := fun same => single (same ▸ List.mem_cons_self)
              exact ⟨fun same => newline (Option.some.inj same), fun same => ret (Option.some.inj same)⟩
  | multiLiteral =>
      obtain ⟨control, quotes⟩ := multiLiteral_of_quotingOf form
      have plain := plain_of_not_isControl control
      simp only [List.append_assoc]
      refine readString?_multiLiteral (fun single => ?_) (reads_literal (by simp) s plain 0 quotes)
      cases s with
      | nil => simp
      | cons c s =>
          have newline : c ≠ '\n' := fun same => single (same ▸ List.mem_cons_self)
          have ret : c ≠ '\r' := by
            rintro rfl
            exact absurd (plain '\r' List.mem_cons_self) (by decide)
          exact ⟨fun same => newline (Option.some.inj same), fun same => ret (Option.some.inj same)⟩

end Toml

end Intake
