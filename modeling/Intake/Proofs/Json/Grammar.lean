/-
Module: Intake.Proofs.Json.Grammar
Purpose: The grammar of JSON texts, and that reading accepts exactly these.
Main exports: Json.Units, Json.Spells, Json.IsWritten, Json.readWritten?_eq_some_iff

The grammar says nothing about how a text is read: white space may be longer than what is skipped, and no part knows
what is left for the next one.  That there is only one way to read comes from the reader.
-/
import Intake.Json.Reader
import Intake.Proofs.Json.Numbers

namespace Intake

namespace Json

/-! ### The grammar

The grammar says which texts are documents and what their values are, without a reader and without fuel. -/

/-- White space in front of a text. -/
def Spaced (s rest : List Char) : Prop := ∃ blank, s = blank ++ rest ∧ ∀ c ∈ blank, isSpace c = true

/-- The units of a string, from behind its opening quote to behind its closing one. -/
inductive Units : List Nat → List Char → List Char → Prop where
  | close (rest : List Char) : Units [] ('"' :: rest) rest
  | plain {c : Char} {units : List Nat} {s rest : List Char} (quote : c ≠ '"') (backslash : c ≠ '\\')
      (printable : 0x20 ≤ c.toNat) (behind : Units units s rest) : Units (c.toNat :: units) (c :: s) rest
  | short {letter c : Char} {units : List Nat} {s rest : List Char} (escape : shortEscape? letter = some c)
      (behind : Units units s rest) : Units (c.toNat :: units) ('\\' :: letter :: s) rest
  | number {a b c d : Char} {n : Nat} {units : List Nat} {s rest : List Char} (escape : hexQuad? a b c d = some n)
      (behind : Units units s rest) : Units (n :: units) ('\\' :: 'u' :: a :: b :: c :: d :: s) rest

/-- A string behind its opening quote; it has a value if its surrogates stand in pairs. -/
def SpellsString (text : Option String) (s rest : List Char) : Prop :=
  ∃ units, Units units s rest ∧ text = (joinUnits? units).map String.ofList

/-- The name of a field with its colon. -/
def SpellsName (name : Option String) (s rest : List Char) : Prop :=
  ∃ t u, Spaced s ('"' :: t) ∧ SpellsString name t u ∧ Spaced u (':' :: rest)

mutual

/-- A value without white space around it, and the text behind it. -/
inductive Spells : Written → List Char → List Char → Prop where
  | null (rest : List Char) : Spells .null ("null".toList ++ rest) rest
  | isTrue (rest : List Char) : Spells (.bool true) ("true".toList ++ rest) rest
  | isFalse (rest : List Char) : Spells (.bool false) ("false".toList ++ rest) rest
  | number {text : List Char} {n : Option Number} (h : IsNumberText text) (value : readNumber? text = some (n, []))
      (rest : List Char) : Spells (.number n) (text ++ rest) rest
  | string {text : Option String} {s rest : List Char} (h : SpellsString text s rest) :
      Spells (.string text) ('"' :: s) rest
  | emptyArray {s rest : List Char} (close : Spaced s (']' :: rest)) : Spells (.array []) ('[' :: s) rest
  | array {items : List Written} {s rest : List Char} (h : SpellsItems items s rest) :
      Spells (.array items) ('[' :: s) rest
  | emptyObject {s rest : List Char} (close : Spaced s ('\x7d' :: rest)) : Spells (.object []) ('\x7b' :: s) rest
  | object {fields : List (Option String × Written)} {s rest : List Char} (h : SpellsFields fields s rest) :
      Spells (.object fields) ('\x7b' :: s) rest

/-- Items with commas between them, and the closing bracket. -/
inductive SpellsItems : List Written → List Char → List Char → Prop where
  | last {item : Written} {s t u rest : List Char} (front : Spaced s t) (h : Spells item t u)
      (close : Spaced u (']' :: rest)) : SpellsItems [item] s rest
  | more {item : Written} {items : List Written} {s t u v rest : List Char} (front : Spaced s t)
      (h : Spells item t u) (comma : Spaced u (',' :: v)) (behind : SpellsItems items v rest) :
      SpellsItems (item :: items) s rest

/-- Fields with commas between them, and the closing brace. -/
inductive SpellsFields : List (Option String × Written) → List Char → List Char → Prop where
  | last {name : Option String} {item : Written} {s t u v rest : List Char} (named : SpellsName name s t)
      (front : Spaced t u) (h : Spells item u v) (close : Spaced v ('\x7d' :: rest)) :
      SpellsFields [(name, item)] s rest
  | more {name : Option String} {item : Written} {fields : List (Option String × Written)}
      {s t u v w rest : List Char} (named : SpellsName name s t) (front : Spaced t u) (h : Spells item u v)
      (comma : Spaced v (',' :: w)) (behind : SpellsFields fields w rest) :
      SpellsFields ((name, item) :: fields) s rest

end

/-- A whole text that is one value with white space around it. -/
def IsWritten (s : List Char) (w : Written) : Prop := ∃ t u, Spaced s t ∧ Spells w t u ∧ Spaced u []

/-! ### White space

White space may stand around every value and every sign between values. -/

theorem spaced_skipSpace (s : List Char) : Spaced s (skipSpace s) :=
  ⟨s.takeWhile isSpace, List.takeWhile_append_dropWhile.symm, fun _ member => List.mem_takeWhile_imp member⟩

/-- What begins with something else is all that white space leaves. -/
theorem Spaced.skipSpace_eq {s rest : List Char} (h : Spaced s rest) (visible : Lists.Stops isSpace rest) :
    skipSpace s = rest := by
  obtain ⟨blank, rfl, all⟩ := h
  exact Lists.dropWhile_append_of_stops all visible

theorem Spaced.length_le {s rest : List Char} (h : Spaced s rest) : rest.length ≤ s.length := by
  obtain ⟨blank, rfl, -⟩ := h
  rw [List.length_append]
  omega

theorem ends_of_spaced {s rest : List Char} (h : Spaced s rest) (ends : Ends rest) : Ends s := by
  obtain ⟨blank, rfl, all⟩ := h
  cases blank with
  | nil => exact ends
  | cons c blank =>
      intro d first
      obtain rfl := Option.some.inj first
      have space := all c List.mem_cons_self
      simp only [isSpace, Bool.or_eq_true, beq_iff_eq] at space
      rcases space with ((rfl | rfl) | rfl) | rfl <;> decide

/-! ### Strings and words

Strings and words are read up to a known end, so the reader and the grammar agree on them at once. -/

section

variable {s rest : List Char}

/-- Units that are read are those of the grammar. -/
theorem units_of_readUnits? {units : List Nat} (found : readUnits? s = some (units, rest)) : Units units s rest := by
  fun_induction readUnits? s generalizing units with
  | case1 => cases found
  | case2 =>
      cases found
      exact .close _
  | case3 a b c d behind n number ih =>
      obtain ⟨⟨others, last⟩, read, same⟩ := Option.map_eq_some_iff.mp found
      cases same
      exact .number number (ih read)
  | case4 => cases found
  | case5 letter behind _ c escape ih =>
      obtain ⟨⟨others, last⟩, read, same⟩ := Option.map_eq_some_iff.mp found
      cases same
      exact .short escape (ih read)
  | case6 => cases found
  | case7 => cases found
  | case8 c behind quote number short plain ih =>
      obtain ⟨⟨others, last⟩, read, same⟩ := Option.map_eq_some_iff.mp found
      cases same
      simp only [Bool.or_eq_true, beq_iff_eq, decide_eq_true_eq, not_or, Nat.not_lt] at plain
      exact .plain quote plain.1 plain.2 (ih read)

/-- Units of the grammar are read. -/
theorem readUnits?_of_units {units : List Nat} (h : Units units s rest) : readUnits? s = some (units, rest) := by
  induction h with
  | close => rfl
  | @plain c _ t _ quote backslash printable _ ih =>
      have step : readUnits? (c :: t) = (readUnits? t).map fun r => (c.toNat :: r.1, r.2) := by
        rw [readUnits?.eq_5 c t quote (fun _ _ _ _ _ same _ => backslash same) (fun _ _ same _ => backslash same)]
        exact if_neg (by simp [backslash, printable])
      rw [step, ih]
      rfl
  | @short letter c _ t _ escape _ ih =>
      have notU : letter ≠ 'u' := by
        rintro rfl
        cases escape
      have step : readUnits? ('\\' :: letter :: t) = (readUnits? t).map fun r => (c.toNat :: r.1, r.2) := by
        rw [readUnits?.eq_4 letter t (fun _ _ _ _ _ same _ => notU same), escape]
      rw [step, ih]
      rfl
  | number escape _ ih =>
      rw [readUnits?, escape]
      simp only [ih, Option.map_some]

theorem readString?_eq_some_iff {text : Option String} :
    readString? s = some (text, rest) ↔ SpellsString text s rest := by
  rw [readString?, Option.map_eq_some_iff]
  constructor
  · rintro ⟨⟨units, last⟩, read, same⟩
    cases same
    exact ⟨units, units_of_readUnits? read, rfl⟩
  · rintro ⟨units, h, rfl⟩
    exact ⟨(units, rest), readUnits?_of_units h, rfl⟩

theorem afterWord?_eq_some_iff {word : List Char} : afterWord? word s = some rest ↔ s = word ++ rest := by
  induction word generalizing s with
  | nil => simp [afterWord?, eq_comm]
  | cons c word ih =>
      cases s with
      | nil => simp [afterWord?]
      | cons d s =>
          rw [afterWord?, List.cons_append, List.cons.injEq]
          by_cases same : c = d
          · rw [if_pos same, ih]
            simp [same]
          · rw [if_neg same]
            simp [Ne.symm same]

end

/-! ### What is read is written so

By recursion over the fuel of the reader: what is read in some way is spelled in that way. -/

theorem spellsName_of_read {name : Option String} {s t u rest : List Char} (opened : skipSpace s = '"' :: t)
    (read : readString? t = some (name, u)) (colon : skipSpace u = ':' :: rest) : SpellsName name s rest :=
  ⟨t, u, opened ▸ spaced_skipSpace s, readString?_eq_some_iff.mp read, colon ▸ spaced_skipSpace u⟩

mutual

/-- What is read as a value spells it. -/
theorem spells_of_readSyntax? : ∀ {fuel : Nat} {s : List Char} {w : Written} {rest : List Char},
    readSyntax? fuel s = some (w, rest) → Spells w (skipSpace s) rest
  | fuel + 1, s, w, rest, found => by
    rw [readSyntax?] at found
    split at found
    · next t opened =>
        obtain ⟨⟨text, last⟩, read, same⟩ := Option.map_eq_some_iff.mp found
        cases same
        exact opened ▸ .string (readString?_eq_some_iff.mp read)
    · next t opened =>
        split at found
        · next closed =>
            cases found
            exact opened ▸ .emptyArray (closed ▸ spaced_skipSpace t)
        · obtain ⟨⟨items, last⟩, read, same⟩ := Option.map_eq_some_iff.mp found
          cases same
          exact opened ▸ .array (spellsItems_of_readItems? read)
    · next t opened =>
        split at found
        · next closed =>
            cases found
            exact opened ▸ .emptyObject (closed ▸ spaced_skipSpace t)
        · obtain ⟨⟨fields, last⟩, read, same⟩ := Option.map_eq_some_iff.mp found
          cases same
          exact opened ▸ .object (spellsFields_of_readFields? read)
    · next t opened =>
        obtain ⟨last, behind, same⟩ := Option.map_eq_some_iff.mp found
        cases same
        rw [opened, afterWord?_eq_some_iff.mp behind]
        exact .null _
    · next t opened =>
        obtain ⟨last, behind, same⟩ := Option.map_eq_some_iff.mp found
        cases same
        rw [opened, afterWord?_eq_some_iff.mp behind]
        exact .isTrue _
    · next t opened =>
        obtain ⟨last, behind, same⟩ := Option.map_eq_some_iff.mp found
        cases same
        rw [opened, afterWord?_eq_some_iff.mp behind]
        exact .isFalse _
    · obtain ⟨⟨n, last⟩, read, same⟩ := Option.map_eq_some_iff.mp found
      cases same
      obtain ⟨text, split, number, value⟩ := exists_numberText read
      exact split ▸ .number number value _

/-- What is read as items spells them. -/
theorem spellsItems_of_readItems? : ∀ {fuel : Nat} {s : List Char} {items : List Written} {rest : List Char},
    readItems? fuel s = some (items, rest) → SpellsItems items s rest
  | fuel + 1, s, items, rest, found => by
    rw [readItems?] at found
    split at found
    · cases found
    · next item t read =>
        split at found
        · next u comma =>
            obtain ⟨⟨others, last⟩, behind, same⟩ := Option.map_eq_some_iff.mp found
            cases same
            exact .more (spaced_skipSpace s) (spells_of_readSyntax? read) (comma ▸ spaced_skipSpace t)
              (spellsItems_of_readItems? behind)
        · next closed =>
            cases found
            exact .last (spaced_skipSpace s) (spells_of_readSyntax? read) (closed ▸ spaced_skipSpace t)
        · cases found

/-- What is read as fields spells them. -/
theorem spellsFields_of_readFields? : ∀ {fuel : Nat} {s : List Char} {fields : List (Option String × Written)}
    {rest : List Char}, readFields? fuel s = some (fields, rest) → SpellsFields fields s rest
  | fuel + 1, s, fields, rest, found => by
    rw [readFields?] at found
    split at found
    · next t opened =>
        split at found
        · cases found
        · next name u spelled =>
            split at found
            · next v colon =>
                have named := spellsName_of_read opened spelled colon
                split at found
                · cases found
                · next item x read =>
                    split at found
                    · next y comma =>
                        obtain ⟨⟨others, last⟩, behind, same⟩ := Option.map_eq_some_iff.mp found
                        cases same
                        exact .more named (spaced_skipSpace v) (spells_of_readSyntax? read)
                          (comma ▸ spaced_skipSpace x) (spellsFields_of_readFields? behind)
                    · next closed =>
                        cases found
                        exact .last named (spaced_skipSpace v) (spells_of_readSyntax? read)
                          (closed ▸ spaced_skipSpace x)
                    · cases found
            · cases found
    · cases found

end

/-! ### What is written so is read

By recursion over the spelling, with enough fuel for its length: every value takes at least one character, so
the text that is left gets shorter. -/

theorem Units.length_lt {units : List Nat} {s rest : List Char} (h : Units units s rest) :
    rest.length < s.length := by
  induction h with
  | close => exact Nat.lt_succ_self _
  | plain => rw [List.length_cons]; omega
  | short => simp only [List.length_cons]; omega
  | number => simp only [List.length_cons]; omega

theorem SpellsName.length_lt {name : Option String} {s rest : List Char} (h : SpellsName name s rest) :
    rest.length < s.length := by
  obtain ⟨t, u, front, ⟨units, behind, -⟩, colon⟩ := h
  have opened := front.length_le
  have inside := behind.length_lt
  have closed := colon.length_le
  simp only [List.length_cons] at opened closed
  omega

mutual

/-- No value is empty. -/
theorem Spells.length_lt {w : Written} {s rest : List Char} : Spells w s rest → rest.length < s.length
  | .null _ | .isTrue _ | .isFalse _ => by
    rw [List.length_append]
    exact Nat.lt_add_of_pos_left (by decide)
  | .number h _ rest => by
    obtain ⟨c, others, rfl, -⟩ := h.starts
    rw [List.length_append]
    exact Nat.lt_add_of_pos_left (Nat.succ_pos _)
  | .string ⟨_, units, _⟩ => Nat.lt_succ_of_lt units.length_lt
  | .emptyArray close => Nat.lt_succ_of_lt close.length_le
  | .array h => Nat.lt_succ_of_lt h.length_lt
  | .emptyObject close => Nat.lt_succ_of_lt close.length_le
  | .object h => Nat.lt_succ_of_lt h.length_lt

theorem SpellsItems.length_lt {items : List Written} {s rest : List Char} :
    SpellsItems items s rest → rest.length < s.length
  | .last front h close => close.length_le.trans (h.length_lt.le.trans front.length_le)
  | .more front h comma behind =>
    behind.length_lt.trans (comma.length_le.trans (h.length_lt.le.trans front.length_le))

theorem SpellsFields.length_lt {fields : List (Option String × Written)} {s rest : List Char} :
    SpellsFields fields s rest → rest.length < s.length
  | .last named front h close =>
    close.length_le.trans (h.length_lt.le.trans (front.length_le.trans named.length_lt.le))
  | .more named front h comma behind =>
    behind.length_lt.trans
      (comma.length_le.trans (h.length_lt.le.trans (front.length_le.trans named.length_lt.le)))

end

/-- A value begins with neither white space nor the end of an array. -/
theorem Spells.starts {w : Written} {s rest : List Char} (h : Spells w s rest) :
    ∀ c ∈ s.head?, isSpace c = false ∧ c ≠ ']' := by
  intro c first
  cases h with
  | number h =>
      obtain ⟨d, others, rfl, leading⟩ := h.starts
      obtain rfl := Option.some.inj first
      rcases leading with rfl | digit
      · decide
      · have other {e : Char} (noDigit : isDigit e = false) : d ≠ e := ne_of_isDigit digit noDigit
        simp only [isSpace, Bool.or_eq_false_iff, beq_eq_false_iff_ne]
        exact ⟨⟨⟨⟨other (by decide), other (by decide)⟩, other (by decide)⟩, other (by decide)⟩, other (by decide)⟩
  | _ =>
      obtain rfl := Option.some.inj first
      decide

theorem Spells.skipSpace_eq {w : Written} {s t rest : List Char} (h : Spells w t rest) (front : Spaced s t) :
    skipSpace s = t :=
  front.skipSpace_eq fun c first => (h.starts c first).1

theorem readSyntax?_number {fuel : Nat} {s text rest : List Char} {n : Option Number} (h : IsNumberText text)
    (value : readNumber? text = some (n, [])) (ends : Ends rest) (front : skipSpace s = text ++ rest) :
    readSyntax? (fuel + 1) s = some (.number n, rest) := by
  have read := readNumber?_append h value ends
  obtain ⟨c, others, rfl, leading⟩ := h.starts
  have other {e : Char} (noDigit : isDigit e = false) (noMinus : e ≠ '-') : c ≠ e := by
    rcases leading with rfl | digit
    · exact noMinus.symm
    · exact ne_of_isDigit digit noDigit
  rw [List.cons_append] at read front
  rw [readSyntax?, front]
  split
  · next same => exact absurd (List.cons.inj same).1 (other (by decide) (by decide))
  · next same => exact absurd (List.cons.inj same).1 (other (by decide) (by decide))
  · next same => exact absurd (List.cons.inj same).1 (other (by decide) (by decide))
  · next same => exact absurd (List.cons.inj same).1 (other (by decide) (by decide))
  · next same => exact absurd (List.cons.inj same).1 (other (by decide) (by decide))
  · next same => exact absurd (List.cons.inj same).1 (other (by decide) (by decide))
  · rw [read]
    rfl

theorem SpellsItems.ne_close {items : List Written} {s rest : List Char} (h : SpellsItems items s rest)
    (t : List Char) : skipSpace s ≠ ']' :: t := by
  intro closed
  have opens {item : Written} {u v : List Char} (front : Spaced s u) (h : Spells item u v) : False := by
    rw [h.skipSpace_eq front] at closed
    exact (h.starts ']' (by rw [closed]; rfl)).2 rfl
  cases h with
  | last front h => exact opens front h
  | more front h => exact opens front h

theorem Spaced.skipSpace_eq_cons {s rest : List Char} {c : Char} (h : Spaced s (c :: rest))
    (visible : isSpace c = false) : skipSpace s = c :: rest :=
  h.skipSpace_eq (Lists.stops_cons visible)

/-- What may come behind a value in an array or an object ends a number. -/
theorem ends_of_spaced_cons {s rest : List Char} {c : Char} (h : Spaced s (c :: rest))
    (other : isDigit c = false ∧ c ≠ '.' ∧ c ≠ 'e' ∧ c ≠ 'E') : Ends s :=
  ends_of_spaced h fun _ first => Option.some.inj first ▸ other

/-- Behind a name with its colon. -/
theorem readFields?_of_spellsName {name : Option String} {s t : List Char} (h : SpellsName name s t) (fuel : Nat) :
    readFields? (fuel + 1) s =
      match readSyntax? fuel t with
      | none => none
      | some (item, rest) =>
        match skipSpace rest with
        | ',' :: rest => (readFields? fuel rest).map fun (fields, rest) => ((name, item) :: fields, rest)
        | '\x7d' :: rest => some ([(name, item)], rest)
        | _ => none := by
  obtain ⟨u, v, opened, text, colon⟩ := h
  rw [readFields?, opened.skipSpace_eq_cons (by decide)]
  simp only [readString?_eq_some_iff.mpr text]
  rw [colon.skipSpace_eq_cons (by decide)]
  rfl

theorem SpellsFields.ne_close {fields : List (Option String × Written)} {s rest : List Char}
    (h : SpellsFields fields s rest) (t : List Char) : skipSpace s ≠ '\x7d' :: t := by
  have opens {name : Option String} {u : List Char} : SpellsName name s u → skipSpace s ≠ '\x7d' :: t := by
    rintro ⟨v, x, opened, -⟩ closed
    rw [opened.skipSpace_eq_cons (by decide)] at closed
    exact absurd (List.cons.inj closed).1 (by decide)
  cases h with
  | last named => exact opens named
  | more named => exact opens named

mutual

/-- What spells a value is read as it. -/
theorem readSyntax?_of_spells {w : Written} {t rest : List Char} : Spells w t rest → Ends rest →
    ∀ (fuel : Nat) (s : List Char), skipSpace s = t → 2 * t.length ≤ fuel → readSyntax? fuel s = some (w, rest)
  | h, _, 0, _, _, enough => by
    have some := h.length_lt
    omega
  | .null _, _, fuel + 1, s, front, _ => by
    rw [readSyntax?, front]
    rfl
  | .isTrue _, _, fuel + 1, s, front, _ => by
    rw [readSyntax?, front]
    rfl
  | .isFalse _, _, fuel + 1, s, front, _ => by
    rw [readSyntax?, front]
    rfl
  | .number h value _, ends, fuel + 1, s, front, _ => readSyntax?_number h value ends front
  | .string h, _, fuel + 1, s, front, _ => by
    rw [readSyntax?, front]
    simp only [readString?_eq_some_iff.mpr h, Option.map_some]
  | .emptyArray close, _, fuel + 1, s, front, _ => by
    rw [readSyntax?, front]
    simp only
    rw [close.skipSpace_eq_cons (by decide)]
    rfl
  | .array h, _, fuel + 1, s, front, enough => by
    have read := readItems?_of_spells h fuel (by rw [List.length_cons] at enough; omega)
    rw [readSyntax?, front]
    simp only
    split
    · next closed => exact absurd closed (h.ne_close _)
    · rw [read]
      rfl
  | .emptyObject close, _, fuel + 1, s, front, _ => by
    rw [readSyntax?, front]
    simp only
    rw [close.skipSpace_eq_cons (by decide)]
    rfl
  | .object h, _, fuel + 1, s, front, enough => by
    have read := readFields?_of_spells h fuel (by rw [List.length_cons] at enough; omega)
    rw [readSyntax?, front]
    simp only
    split
    · next closed => exact absurd closed (h.ne_close _)
    · rw [read]
      rfl

/-- What spells items is read as them. -/
theorem readItems?_of_spells {items : List Written} {s rest : List Char} : SpellsItems items s rest →
    ∀ fuel : Nat, 2 * s.length + 1 ≤ fuel → readItems? fuel s = some (items, rest)
  | _, 0, enough => by omega
  | .last front h close, fuel + 1, enough => by
    have skipped := front.length_le
    have read := readSyntax?_of_spells h (ends_of_spaced_cons close (by decide)) fuel s (h.skipSpace_eq front)
      (by omega)
    rw [readItems?, read]
    simp only
    rw [close.skipSpace_eq_cons (by decide)]
    rfl
  | .more front h comma behind, fuel + 1, enough => by
    have skipped := front.length_le
    have taken := h.length_lt
    have left := comma.length_le
    rw [List.length_cons] at left
    have read := readSyntax?_of_spells h (ends_of_spaced_cons comma (by decide)) fuel s (h.skipSpace_eq front)
      (by omega)
    have others := readItems?_of_spells behind fuel (by omega)
    rw [readItems?, read]
    simp only
    rw [comma.skipSpace_eq_cons (by decide)]
    simp only [others, Option.map_some]

/-- What spells fields is read as them. -/
theorem readFields?_of_spells {fields : List (Option String × Written)} {s rest : List Char} :
    SpellsFields fields s rest →
      ∀ fuel : Nat, 2 * s.length + 1 ≤ fuel → readFields? fuel s = some (fields, rest)
  | _, 0, enough => by omega
  | .last named front h close, fuel + 1, enough => by
    have behindName := named.length_lt
    have skipped := front.length_le
    have read := readSyntax?_of_spells h (ends_of_spaced_cons close (by decide)) fuel _ (h.skipSpace_eq front)
      (by omega)
    rw [readFields?_of_spellsName named, read]
    simp only
    rw [close.skipSpace_eq_cons (by decide)]
    rfl
  | .more named front h comma behind, fuel + 1, enough => by
    have behindName := named.length_lt
    have skipped := front.length_le
    have taken := h.length_lt
    have left := comma.length_le
    rw [List.length_cons] at left
    have read := readSyntax?_of_spells h (ends_of_spaced_cons comma (by decide)) fuel _ (h.skipSpace_eq front)
      (by omega)
    have others := readFields?_of_spells behind fuel (by omega)
    rw [readFields?_of_spellsName named, read]
    simp only
    rw [comma.skipSpace_eq_cons (by decide)]
    simp only [others, Option.map_some]

end

/-- Exactly the texts of the grammar are read. -/
theorem readWritten?_eq_some_iff {s : List Char} {w : Written} : readWritten? s = some w ↔ IsWritten s w := by
  constructor
  · intro found
    rw [readWritten?] at found
    split at found
    · next written rest read =>
        split at found
        · next last =>
            cases found
            exact ⟨_, rest, spaced_skipSpace s, spells_of_readSyntax? read, last ▸ spaced_skipSpace rest⟩
        · cases found
    · cases found
  · rintro ⟨t, rest, front, h, last⟩
    have skipped := front.length_le
    have read := readSyntax?_of_spells h (ends_of_spaced last nofun) (2 * s.length + 2) s (h.skipSpace_eq front)
      (by omega)
    rw [readWritten?, read]
    exact if_pos (last.skipSpace_eq nofun)

end Json

end Intake
