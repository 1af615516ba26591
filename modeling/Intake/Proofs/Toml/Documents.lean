/-
Module: Intake.Proofs.Toml.Documents
Purpose: A document that was written is read as the table of its fields.
Main exports: Toml.Writable, Toml.Document.WellFormed, Toml.Document.field?, Toml.Document.read?_text

The text is followed line by line.  A header opens a table, and while its pairs are read only this table grows, so
a section as a whole puts one field into the root: a table, or one more element of a list.
-/
import Intake.Proofs.Table
import Intake.Proofs.Toml.Strings
import Intake.Proofs.Toml.Words

namespace Intake

namespace Toml

/-! ### Values

A document that is written holds texts, numbers, truth values and empty lists.  Each is read back where a line
ends behind it. -/

/-- The values that a document may hold: texts, integers of 64 binary digits, finite doubles and empty lists. -/
inductive Writable : Toml → Prop where
  | string (s : String) : Writable (.string s)
  | integer {n : Int} (fits : bounded? n = some n) : Writable (.integer n)
  | float {negative : Bool} {units : Nat} (double : (Binary64.finite negative units).IsDouble) :
      Writable (.float (.finite negative units))
  | empty : Writable (.array [])

/-- They are written as strings, as words, or as a pair of brackets. -/
theorem Writable.text_cases {v : Toml} (h : Writable v) :
    (∃ s, v = .string s ∧ valueText v = stringText s.toList) ∨
    ((∀ c ∈ valueText v, isWordChar c = true) ∧ readWord? (valueText v) = some v) ∨
    (v = .array [] ∧ valueText v = ['[', ']']) := by
  cases h with
  | string s => exact .inl ⟨s, rfl, by rw [valueText]⟩
  | integer fits =>
      refine .inr (.inl ?_)
      rw [valueText]
      exact ⟨(isNumber_integerText _).isWordChar, readWord?_integerText fits⟩
  | float double =>
      cases double with
      | finite _ exact fits =>
          refine .inr (.inl ?_)
          rw [valueText]
          exact ⟨(isNumber_floatText exact fits).isWordChar, readWord?_floatText exact fits⟩
  | empty => exact .inr (.inr ⟨rfl, by simp [valueText, itemsText]⟩)

theorem exists_stringText (s : List Char) : ∃ quote text, stringText s = quote :: text ∧
    (quote = '"' ∨ quote = '\'') := by
  simp only [stringText]
  cases quotingOf (Traits.of s) with
  | basic => exact ⟨_, _, rfl, .inl rfl⟩
  | literal => exact ⟨_, _, rfl, .inr rfl⟩
  | multiBasic => exact ⟨_, _, rfl, .inl rfl⟩
  | multiLiteral => exact ⟨_, _, rfl, .inr rfl⟩

/-- No value begins with a blank. -/
theorem Writable.exists_head {v : Toml} (h : Writable v) :
    ∃ c text, valueText v = c :: text ∧ isWhite c = false := by
  rcases h.text_cases with ⟨s, -, text⟩ | ⟨chars, reads⟩ | ⟨-, text⟩
  · obtain ⟨quote, behind, split, rfl | rfl⟩ := exists_stringText s.toList
    · exact ⟨_, _, text.trans split, rfl⟩
    · exact ⟨_, _, text.trans split, rfl⟩
  · cases split : valueText v with
    | nil =>
        rw [split] at reads
        cases reads
    | cons c text =>
        refine ⟨c, text, rfl, ?_⟩
        have own : isWordChar c = true := chars c (split ▸ List.mem_cons_self)
        rw [isWhite, Bool.or_eq_false_iff, beq_eq_false_iff_ne, beq_eq_false_iff_ne]
        constructor
        · rintro rfl
          cases own
        · rintro rfl
          cases own
  · exact ⟨_, _, text, rfl⟩

/-- A value is read back at the end of a line. -/
theorem Writable.readValue? {v : Toml} (h : Writable v) (fuel : Nat) (rest : List Char) :
    readValue? (fuel + 2) 0 (valueText v ++ '\n' :: rest) = some (v, '\n' :: rest) := by
  rcases h.text_cases with ⟨s, rfl, text⟩ | ⟨chars, reads⟩ | ⟨rfl, text⟩
  · have read := readString?_stringText s.toList rest
    obtain ⟨quote, behind, split, rfl | rfl⟩ := exists_stringText s.toList
    all_goals
      rw [split] at read
      rw [text, split, Toml.readValue?.eq_def]
      simp only [List.cons_append] at read ⊢
      simp only [read, Option.map_some, String.ofList_toList]
  · have word : readWordValue? (valueText v ++ '\n' :: rest) = some (v, '\n' :: rest) :=
      readWordValue?_of_word chars reads
    have first {c : Char} {behind : List Char} (same : valueText v ++ '\n' :: rest = c :: behind) :
        isWordChar c = true ∨ c = '\n' := by
      have member : c ∈ (valueText v ++ '\n' :: rest).head? := congrArg List.head? same
      cases split : valueText v with
      | nil =>
          rw [split] at member
          exact .inr (Option.some.inj member).symm
      | cons d text =>
          rw [split] at member chars
          exact .inl (chars c ((Option.some.inj member) ▸ List.mem_cons_self))
    rw [Toml.readValue?.eq_def]
    simp only
    split
    · next same => exact absurd (first same) (by decide)
    · next same => exact absurd (first same) (by decide)
    · next same => exact absurd (first same) (by decide)
    · next same => exact absurd (first same) (by decide)
    · exact word
  · rw [text]
    rfl

/-! ### Keys

The keys that are written need no quotes, so a key ends where an equals sign or a bracket follows it. -/

/-- Keys that need no quotes. -/
structure IsBare (key : String) : Prop where
  chars : ∀ c ∈ key.toList, isBareChar c = true
  nonempty : key.toList ≠ []

instance (key : String) : Decidable (IsBare key) :=
  decidable_of_iff (key.toList.all isBareChar = true ∧ key.toList ≠ [])
    ⟨fun h => ⟨List.all_eq_true.mp h.1, h.2⟩, fun h => ⟨List.all_eq_true.mpr h.chars, h.nonempty⟩⟩

theorem isBareChar_ne {c d : Char} (bare : isBareChar c = true) (other : isBareChar d = false) : c ≠ d := by
  rintro rfl
  rw [bare] at other
  cases other

theorem IsBare.exists_head {key : String} (bare : IsBare key) :
    ∃ c rest, key.toList = c :: rest ∧ isBareChar c = true := by
  obtain ⟨c, rest, split⟩ := List.exists_cons_of_ne_nil bare.nonempty
  exact ⟨c, rest, split, bare.chars c (split ▸ List.mem_cons_self)⟩

theorem skipWhite_cons {c : Char} (text : List Char) (visible : isWhite c = false) :
    skipWhite (c :: text) = c :: text :=
  (Lists.stops_cons visible).dropWhile_eq

/-- A bare key is one part, which ends where no dot follows. -/
theorem IsBare.readKey? {key : String} (bare : IsBare key) {text : List Char}
    (ends : Lists.Stops isBareChar text) (last : (skipWhite text).head? ≠ some '.') :
    readKey? (key.toList ++ text) = some ([key], skipWhite text) := by
  obtain ⟨c, rest, split, own⟩ := bare.exists_head
  have visible : isWhite c = false := by
    rw [isWhite, beq_false_of_ne (isBareChar_ne own (by decide)), beq_false_of_ne (isBareChar_ne own (by decide))]
    rfl
  have part : readKeyPart? (key.toList ++ text) = some (key, text) := by
    have double : ∀ behind, key.toList ++ text = '"' :: behind → False := fun behind same => by
      rw [split] at same
      exact isBareChar_ne own (by decide) (List.cons.inj same).1
    have single : ∀ behind, key.toList ++ text = '\'' :: behind → False := fun behind same => by
      rw [split] at same
      exact isBareChar_ne own (by decide) (List.cons.inj same).1
    rw [readKeyPart?.eq_3 _ double single]
    simp only [Lists.takeWhile_append_of_stops bare.chars ends, Lists.dropWhile_append_of_stops bare.chars ends,
      if_neg bare.nonempty, String.ofList_toList]
  have start : skipWhite (key.toList ++ text) = key.toList ++ text := by
    rw [split]
    exact skipWhite_cons _ visible
  have parts : readKeyParts? ((key.toList ++ text).length + 1) (key.toList ++ text) =
      some ([key], skipWhite text) := by
    rw [readKeyParts?, start, part]
    simp only
    split
    · next dot =>
        rw [dot] at last
        exact absurd rfl last
    · rfl
  rw [Toml.readKey?, parts]
  rfl

/-! ### Lines

A line that is written is a pair or the header of a section. -/

/-- A line with a key and a value is read as such. -/
theorem readLine?_pairLine {key : String} {v : Toml} (bare : IsBare key) (writable : Writable v)
    (rest : List Char) : readLine? (pairLine (key, v) ++ rest) = some (.pair [key] v, rest) := by
  obtain ⟨c, letters, split, own⟩ := bare.exists_head
  obtain ⟨d, text, value, visible⟩ := writable.exists_head
  have line : pairLine (key, v) ++ rest =
      key.toList ++ (' ' :: '=' :: ' ' :: (valueText v ++ '\n' :: rest)) := by
    rw [pairLine]
    simp only [List.append_assoc]
    rfl
  have noBracket : ∀ behind, pairLine (key, v) ++ rest ≠ '[' :: behind := by
    intro behind same
    rw [line, split] at same
    exact isBareChar_ne own (by decide) (List.cons.inj same).1
  have found : Toml.readKey? (key.toList ++ (' ' :: '=' :: ' ' :: (valueText v ++ '\n' :: rest))) =
      some ([key], '=' :: ' ' :: (valueText v ++ '\n' :: rest)) :=
    bare.readKey? (Lists.stops_cons (by decide)) (by simp [skipWhite, isWhite])
  have start : skipWhite (' ' :: (valueText v ++ '\n' :: rest)) = valueText v ++ '\n' :: rest := by
    rw [value]
    exact skipWhite_cons _ visible
  have read := writable.readValue? (2 * (valueText v ++ '\n' :: rest).length) rest
  rw [readLine?.eq_3 _ (fun behind => noBracket _) noBracket, line, found]
  simp only [start, read]
  rfl

theorem exists_head_pairLine {key : String} (v : Toml) (bare : IsBare key) :
    ∃ c text, pairLine (key, v) = c :: text ∧ isBareChar c = true := by
  obtain ⟨c, letters, split, letter⟩ := bare.exists_head
  exact ⟨c, letters ++ " = ".toList ++ valueText v ++ ['\n'], by simp [pairLine, split], letter⟩

/-- A header is read as that of its section. -/
theorem readLine?_header {s : Section} (bare : IsBare s.name) (rest : List Char) :
    readLine? (s.header ++ rest) = some (if s.isElement then .element [s.name] else .header [s.name], rest) := by
  obtain ⟨c, letters, split, own⟩ := bare.exists_head
  have found (text : List Char) : readKey? (s.name.toList ++ ']' :: text) = some ([s.name], ']' :: text) :=
    bare.readKey? (Lists.stops_cons (by decide)) (by simp [skipWhite, isWhite])
  rw [Section.header]
  split
  · have text : "[[".toList ++ s.name.toList ++ "]]\n".toList ++ rest =
        '[' :: '[' :: (s.name.toList ++ ']' :: ']' :: '\n' :: rest) := by simp
    rw [text, readLine?, found]
    rfl
  · have text : '[' :: s.name.toList ++ "]\n".toList ++ rest = '[' :: (s.name.toList ++ ']' :: '\n' :: rest) := by
      simp
    have single : ∀ behind, s.name.toList ++ ']' :: '\n' :: rest = '[' :: behind → False := by
      intro behind same
      rw [split] at same
      exact isBareChar_ne own (by decide) (List.cons.inj same).1
    rw [text, readLine?.eq_2 _ single, found]
    rfl

theorem Section.exists_head_header (s : Section) : ∃ text, s.header = '[' :: text := by
  rw [header]
  cases s.isElement with
  | true => exact ⟨_, rfl⟩
  | false => exact ⟨_, rfl⟩

/-! ### Tables under construction

While a document is read, its tables are nodes that can still be changed.  The lines of a section change the
node of that section and no other. -/

namespace Node

variable {key k : String} {node other : Node} {fields : List (String × Node)}

/-- A node that is put under a key is found there, and the others are found as before. -/
theorem lookup?_replace :
    lookup? k (replace key node fields) = if key = k then some node else lookup? k fields := by
  induction fields with
  | nil => rfl
  | cons first rest ih =>
      obtain ⟨name, old⟩ := first
      rw [replace]
      split
      · next same =>
          subst same
          rw [lookup?, lookup?]
          split
          · rfl
          · rfl
      · next apart =>
          rw [lookup?, lookup?, ih]
          split
          · next found =>
              subst found
              rw [if_neg (fun same => apart same.symm)]
          · rfl

theorem replace_replace : replace key node (replace key other fields) = replace key node fields := by
  induction fields with
  | nil => exact if_pos rfl
  | cons first rest ih =>
      obtain ⟨name, old⟩ := first
      rw [replace, replace]
      split
      · next same => rw [replace, if_pos same]
      · next apart => rw [replace, if_neg apart, ih]

theorem replace_of_lookup?_eq_none (missing : lookup? key fields = none) :
    replace key node fields = fields ++ [(key, node)] := by
  induction fields with
  | nil => rfl
  | cons first rest ih =>
      obtain ⟨name, old⟩ := first
      rw [lookup?] at missing
      split at missing
      · cases missing
      · next apart => rw [replace, if_neg apart, ih missing, List.cons_append]

theorem changeLast?_append (change : Node → Option Node) (elements : List Node) (last : Node) :
    changeLast? change (elements ++ [last]) = (change last).map (elements ++ [·]) := by
  induction elements with
  | nil => rfl
  | cons first rest ih =>
      obtain ⟨second, others, split⟩ : ∃ second others, rest ++ [last] = second :: others :=
        List.exists_cons_of_ne_nil (by simp)
      rw [List.cons_append, split, changeLast?.eq_3 _ _ _ (by simp), ← split, ih, Option.map_map]
      rfl

/-- Where a table of a list stands: behind earlier elements, or alone under its name. -/
def wrap (isElement : Bool) (earlier : List Node) (node : Node) : Node :=
  if isElement then .tables (earlier ++ [node]) else node

/-- A root as a function of the table at a path. -/
def Opens (path : List String) (build : Node → Node) : Prop :=
  ∀ change inner, changeAt? false path change (build (.table false false inner)) =
    (change (.table false false inner)).map build

theorem opens_root : Opens [] id := fun change inner => by
  rw [changeAt?, id, Option.map_id]
  rfl

/-- A section is opened under its name. -/
theorem opens_section (name : String) (isElement : Bool) (earlier : List Node) (fields : List (String × Node)) :
    Opens [name] fun node => .table false false (replace name (wrap isElement earlier node) fields) := by
  intro change inner
  have found : lookup? name (replace name (wrap isElement earlier (.table false false inner)) fields) =
      some (wrap isElement earlier (.table false false inner)) := by
    rw [lookup?_replace, if_pos rfl]
  rw [changeAt?, found]
  cases isElement with
  | true =>
      simp only [wrap, if_true, changeLast?_append, changeAt?, Option.map_map]
      congr 1
      funext node
      simp only [Function.comp, replace_replace]
  | false =>
      simp only [wrap, Bool.false_eq_true, if_false, changeAt?, Bool.false_and, Bool.not_false]
      congr 1
      funext node
      rw [replace_replace]

end Node

/-! ### Pairs

Each pair of a section adds one field to the table that is open. -/

/-- Fields under bare keys, each once. -/
structure WritableFields (fields : List (String × Toml)) : Prop where
  each : ∀ field ∈ fields, IsBare field.1 ∧ Writable field.2
  apart : (fields.map Prod.fst).Nodup

/-- Fields as nodes. -/
def nodes (fields : List (String × Toml)) : List (String × Node) := fields.map fun p => (p.1, .value p.2)

/-- A draft to which a text adds lines, up to the draft that is given. -/
def Draft.Yields (draft : Draft) (text : List Char) (final : Draft) : Prop :=
  ∀ fuel, text.length < fuel → readLines? fuel draft text = some final

namespace Draft.Yields

variable {draft next final : Draft} {rest : List Char}

theorem nil (draft : Draft) : draft.Yields [] draft := by
  intro fuel enough
  obtain ⟨fuel, rfl⟩ := Nat.exists_eq_add_one.mpr (Nat.zero_lt_of_lt enough)
  rfl

theorem blank (behind : draft.Yields rest final) : draft.Yields ('\n' :: rest) final := by
  intro fuel enough
  obtain ⟨fuel, rfl⟩ := Nat.exists_eq_add_one.mpr (Nat.zero_lt_of_lt enough)
  exact behind fuel (by rw [List.length_cons] at enough; omega)

/-- A line that begins with a bracket or a bare key is added, and what follows it is read next. -/
theorem line {text : List Char} {line : Line}
    (first : ∃ c behind, text = c :: behind ∧ (c = '[' ∨ isBareChar c = true))
    (read : readLine? (text ++ rest) = some (line, rest)) (added : draft.add? line = some next)
    (behind : next.Yields rest final) : draft.Yields (text ++ rest) final := by
  obtain ⟨c, text, rfl, first⟩ := first
  intro fuel enough
  obtain ⟨fuel, rfl⟩ := Nat.exists_eq_add_one.mpr (Nat.zero_lt_of_lt enough)
  have visible : isWhite c = false := by
    rcases first with rfl | own
    · rfl
    · rw [isWhite, beq_false_of_ne (isBareChar_ne own (by decide)),
        beq_false_of_ne (isBareChar_ne own (by decide))]
      rfl
  have other (d : Char) (bracket : d ≠ '[') (bare : isBareChar d = false) : c ≠ d := by
    rcases first with rfl | own
    · exact bracket.symm
    · exact isBareChar_ne own bare
  have noComment := other '#' (by decide) (by decide)
  have noNewline := other '\n' (by decide) (by decide)
  have noReturn := other '\r' (by decide) (by decide)
  rw [List.length_append, List.length_cons] at enough
  have step := behind fuel (by omega)
  rw [readLines?, List.cons_append, skipWhite_cons _ visible]
  rw [List.cons_append] at read
  split
  · next same => cases same
  · next same => exact absurd (List.cons.inj same).1 noComment
  · next same => exact absurd (List.cons.inj same).1 noNewline
  · next same => exact absurd (List.cons.inj same).1 noReturn
  · simp only [read, added, step]

/-- Pairs fill the table that is open. -/
theorem pairs {path : List String} {build : Node → Node} (opens : Node.Opens path build)
    {fields : List (String × Toml)} (writable : WritableFields fields) {inner : List (String × Node)}
    (free : ∀ field ∈ fields, Node.lookup? field.1 inner = none)
    (behind : Yields ⟨build (.table false false (inner ++ nodes fields)), path⟩ rest final) :
    Yields ⟨build (.table false false inner), path⟩ (fields.flatMap pairLine ++ rest) final := by
  induction fields generalizing inner with
  | nil => simpa [nodes] using behind
  | cons field fields ih =>
      obtain ⟨key, v⟩ := field
      obtain ⟨bare, own⟩ : IsBare key ∧ Writable v := writable.each _ List.mem_cons_self
      have others : ∀ field ∈ fields, IsBare field.1 ∧ Writable field.2 := fun field member =>
        writable.each field (List.mem_cons_of_mem _ member)
      obtain ⟨once, apart⟩ := List.nodup_cons.mp writable.apart
      have missing : Node.lookup? key inner = none := free _ List.mem_cons_self
      obtain ⟨c, text, split, letter⟩ := exists_head_pairLine v bare
      have added : Draft.add? ⟨build (.table false false inner), path⟩ (.pair [key] v) =
          some ⟨build (.table false false (inner ++ [(key, .value v)])), path⟩ := by
        rw [Draft.add?, opens]
        simp [Node.addValue?, Node.changeAt?, Node.addField?, missing]
      rw [List.flatMap_cons, List.append_assoc]
      refine line ⟨c, text, split, .inr letter⟩ (readLine?_pairLine bare own _) added (ih ⟨others, apart⟩ ?_ ?_)
      · intro field member
        rw [← Node.replace_of_lookup?_eq_none missing, Node.lookup?_replace, if_neg]
        · exact free field (List.mem_cons_of_mem _ member)
        · exact fun same => once (List.mem_map.mpr ⟨field, member, same.symm⟩)
      · simpa [nodes] using behind

end Draft.Yields

/-! ### Sections

A header opens a new table, and the pairs behind it fill this table. -/

/-- The elements of a list of tables. -/
def Node.elements : Option Node → List Node
  | some (.tables elements) => elements
  | _ => []

/-- The table of a section. -/
def Section.node (s : Section) : Node := .table false false (nodes s.fields)

/-- The fields of a document with one more section. -/
def Section.place (s : Section) (fields : List (String × Node)) : List (String × Node) :=
  Node.replace s.name (Node.wrap s.isElement (Node.elements (Node.lookup? s.name fields)) s.node) fields

/-- Whether there is room for a section: nothing has its name, or both are elements of one list. -/
def Section.Fits (s : Section) (fields : List (String × Node)) : Prop :=
  Node.lookup? s.name fields = none ∨
    s.isElement = true ∧ ∃ elements, Node.lookup? s.name fields = some (.tables elements)

/-- The header of a section opens a table without fields. -/
theorem Section.add?_header {s : Section} {fields : List (String × Node)} (fits : s.Fits fields)
    (path : List String) :
    Draft.add? ⟨.table false false fields, path⟩ (if s.isElement then .element [s.name] else .header [s.name]) =
      some ⟨.table false false (Node.replace s.name
        (Node.wrap s.isElement (Node.elements (Node.lookup? s.name fields)) (.table false false [])) fields),
        [s.name]⟩ := by
  rcases fits with missing | ⟨element, elements, found⟩
  · rw [Node.replace_of_lookup?_eq_none missing, missing]
    cases s.isElement with
    | true => simp [Draft.add?, Node.appendTable?, Node.changeAt?, missing, Node.wrap, Node.elements]
    | false => simp [Draft.add?, Node.openTable?, Node.changeAt?, missing, Node.wrap]
  · rw [element, found]
    simp [Draft.add?, Node.appendTable?, Node.changeAt?, found, Node.wrap, Node.elements]

/-- A section as a whole is one field of the document, or one element of one. -/
theorem Draft.Yields.section {s : Section} (bare : IsBare s.name) (writable : WritableFields s.fields)
    {fields : List (String × Node)} (fits : s.Fits fields) {rest : List Char} {final : Draft}
    (behind : Yields ⟨.table false false (s.place fields), [s.name]⟩ rest final) (path : List String) :
    Yields ⟨.table false false fields, path⟩ (s.render ++ rest) final := by
  obtain ⟨text, split⟩ := s.exists_head_header
  rw [Section.render, List.append_assoc]
  refine line ⟨'[', text, split, .inl rfl⟩ (readLine?_header bare _) (Section.add?_header fits path) ?_
  exact pairs (Node.opens_section s.name s.isElement _ fields) writable (fun _ _ => rfl) behind

/-! ### Documents

Section by section the root comes to hold what the document holds, and the finished root is the table that is
read. -/

theorem Node.fieldsToToml_nodes (fields : List (String × Toml)) : fieldsToToml (nodes fields) = fields := by
  induction fields with
  | nil => rfl
  | cons field rest ih =>
      show (field.1, field.2) :: fieldsToToml (nodes rest) = field :: rest
      rw [ih]

theorem Section.toToml_node (s : Section) : s.node.toToml = .table s.fields := by
  rw [Section.node, Node.toToml, Node.fieldsToToml_nodes]

theorem Node.elementsToToml_map (sections : List Section) :
    elementsToToml (sections.map Section.node) = sections.map fun s => .table s.fields := by
  induction sections with
  | nil => rfl
  | cons s rest ih => rw [List.map_cons, elementsToToml, Section.toToml_node, ih, List.map_cons]

theorem Node.lookup?_fieldsToToml (name : String) (fields : List (String × Node)) :
    Table.lookup? name (fieldsToToml fields) = (lookup? name fields).map toToml := by
  induction fields with
  | nil => rfl
  | cons field rest ih =>
      obtain ⟨key, node⟩ := field
      rw [fieldsToToml, Table.lookup?, lookup?, ih]
      by_cases same : name = key
      · rw [if_pos same, if_pos same.symm]
        rfl
      · rw [if_neg same, if_neg (Ne.symm same)]

theorem Node.lookup?_nodes (name : String) (fields : List (String × Toml)) :
    lookup? name (nodes fields) = (Table.lookup? name fields).map .value := by
  induction fields with
  | nil => rfl
  | cons field rest ih =>
      show (if field.1 = name then some (.value field.2) else lookup? name (nodes rest)) = _
      rw [Table.lookup?, ih]
      by_cases same : name = field.1
      · rw [if_pos same, if_pos same.symm]
        rfl
      · rw [if_neg same, if_neg (Ne.symm same)]

namespace Document

/-- A document without a name for two things: only elements of one list share theirs. -/
structure WellFormed (d : Document) : Prop where
  values : WritableFields d.values
  sections : ∀ s ∈ d.sections, IsBare s.name ∧ WritableFields s.fields
  beside : ∀ s ∈ d.sections, Table.lookup? s.name d.values = none
  apart : d.sections.Pairwise fun s t => s.name = t.name → s.isElement = true ∧ t.isElement = true

def named (d : Document) (name : String) : List Section := d.sections.filter (·.name = name)

/-- What a document holds under a name: a value, a table, or the list of all tables with this name. -/
def field? (d : Document) (name : String) : Option Toml :=
  match d.named name with
  | [] => Table.lookup? name d.values
  | first :: rest =>
    some (if first.isElement then .array ((first :: rest).map fun s => .table s.fields) else .table first.fields)

/-- The same while the document is read. -/
def node? (d : Document) (name : String) : Option Node :=
  match d.named name with
  | [] => (Table.lookup? name d.values).map .value
  | first :: rest => some (if first.isElement then .tables ((first :: rest).map Section.node) else first.node)

theorem map_toToml_node? (d : Document) (name : String) : (d.node? name).map Node.toToml = d.field? name := by
  rw [node?, field?]
  cases d.named name with
  | nil =>
      simp only [Option.map_map]
      cases Table.lookup? name d.values with
      | none => rfl
      | some v => rfl
  | cons first rest =>
      simp only [Option.map_some]
      split
      · rw [Node.toToml, Node.elementsToToml_map]
      · rw [Section.toToml_node]

section

variable {values : List (String × Toml)} {sections : List Section} {s : Section}

theorem named_append (name : String) : named ⟨values, sections ++ [s]⟩ name =
    named ⟨values, sections⟩ name ++ if s.name = name then [s] else [] := by
  rw [named, List.filter_append]
  by_cases same : s.name = name
  · rw [if_pos same, List.filter_cons_of_pos (by simpa using same)]
    rfl
  · rw [if_neg same, List.filter_cons_of_neg (by simpa using same)]
    rfl

/-- A root that holds what a document holds. -/
def Holds (d : Document) (fields : List (String × Node)) : Prop :=
  ∀ name, Node.lookup? name fields = d.node? name

/-- The root of a document has room for one more section, and holds it afterwards. -/
theorem Holds.place {fields : List (String × Node)} (holds : Holds ⟨values, sections⟩ fields)
    (beside : Table.lookup? s.name values = none)
    (apart : ∀ t ∈ sections, t.name = s.name → t.isElement = true ∧ s.isElement = true) :
    s.Fits fields ∧ Holds ⟨values, sections ++ [s]⟩ (s.place fields) := by
  have others (name : String) (other : s.name ≠ name) :
      Node.lookup? name (s.place fields) = node? ⟨values, sections ++ [s]⟩ name := by
    rw [Section.place, Node.lookup?_replace, if_neg other, holds, node?, node?, named_append, if_neg other,
      List.append_nil]
  have own := holds s.name
  have after : named ⟨values, sections ++ [s]⟩ s.name = named ⟨values, sections⟩ s.name ++ [s] := by
    rw [named_append, if_pos rfl]
  have placed : Node.lookup? s.name (s.place fields) =
      some (Node.wrap s.isElement (Node.elements (Node.lookup? s.name fields)) s.node) := by
    rw [Section.place, Node.lookup?_replace, if_pos rfl]
  have fits : s.Fits fields ∧ Node.lookup? s.name (s.place fields) = node? ⟨values, sections ++ [s]⟩ s.name := by
    rw [placed, node?, after]
    cases found : named ⟨values, sections⟩ s.name with
    | nil =>
        rw [node?, found] at own
        have missing : Node.lookup? s.name fields = none := own.trans (by rw [beside]; rfl)
        rw [missing]
        exact ⟨.inl missing, rfl⟩
    | cons first rest =>
        have member : first ∈ sections ∧ first.name = s.name := by
          have inside : first ∈ named ⟨values, sections⟩ s.name := found ▸ List.mem_cons_self
          simpa [named] using inside
        obtain ⟨element, element'⟩ := apart first member.1 member.2
        rw [node?, found] at own
        simp only [if_pos element] at own
        refine ⟨.inr ⟨element', _, own⟩, ?_⟩
        simp [own, Node.wrap, Node.elements, element, element']
  refine ⟨fits.1, fun name => ?_⟩
  by_cases same : s.name = name
  · exact same ▸ fits.2
  · exact others name same

/-- The sections behind those that a root holds, each behind an empty line. -/
theorem exists_yields_sections (path : List String) {fields : List (String × Node)} {rest : List Section}
    (holds : Holds ⟨values, sections⟩ fields) (h : WellFormed ⟨values, sections ++ rest⟩) :
    ∃ fields' path', Draft.Yields ⟨.table false false fields, path⟩ (rest.flatMap fun s => '\n' :: s.render)
        ⟨.table false false fields', path'⟩ ∧
      Holds ⟨values, sections ++ rest⟩ fields' := by
  induction rest generalizing sections fields path with
  | nil => exact ⟨fields, path, .nil _, by rwa [List.append_nil]⟩
  | cons s rest ih =>
      have member : s ∈ sections ++ s :: rest := List.mem_append_right _ List.mem_cons_self
      obtain ⟨bare, writable⟩ := h.sections s member
      obtain ⟨fits, placed⟩ := holds.place (h.beside s member) fun t earlier =>
        (List.pairwise_append.mp h.apart).2.2 t earlier s List.mem_cons_self
      have split : sections ++ s :: rest = sections ++ [s] ++ rest := by simp
      rw [split] at h ⊢
      obtain ⟨fields', path', behind, holds'⟩ := ih [s.name] placed h
      exact ⟨fields', path', (behind.section bare writable fits path).blank, holds'⟩

end

/-- The text of a document yields a root that holds the document. -/
theorem exists_yields_render {d : Document} (h : d.WellFormed) : ∃ fields path,
    Draft.Yields .empty d.render ⟨.table false false fields, path⟩ ∧ Holds d fields := by
  obtain ⟨values, sections⟩ := d
  have front (text : List Char) {final : Draft}
      (behind : Draft.Yields ⟨.table false false (nodes values), []⟩ text final) :
      Draft.Yields .empty (values.flatMap pairLine ++ text) final :=
    Draft.Yields.pairs Node.opens_root h.values (fun _ _ => rfl) behind
  have holds : Holds ⟨values, []⟩ (nodes values) := fun name => Node.lookup?_nodes name values
  rw [render]
  simp only [List.flatMap_map]
  split
  · next none =>
      simp only [none, List.nil_append] at front
      cases sections with
      | nil => exact ⟨_, _, front _ (.nil _), holds⟩
      | cons first rest =>
          obtain ⟨bare, writable⟩ := h.sections first List.mem_cons_self
          obtain ⟨fits, placed⟩ := holds.place (h.beside first List.mem_cons_self) fun t none =>
            absurd none List.not_mem_nil
          obtain ⟨fields, path, behind, holds'⟩ :=
            exists_yields_sections [first.name] placed h
          refine ⟨fields, path, front _ ?_, holds'⟩
          simpa only [List.map_cons, List.flatMap_map] using behind.section bare writable fits []
  · obtain ⟨fields, path, behind, holds'⟩ := exists_yields_sections [] holds h
    exact ⟨fields, path, front _ behind, holds'⟩

/-- No document begins with a byte order mark. -/
theorem skipMark_render {d : Document} (h : d.WellFormed) : skipMark d.render = d.render := by
  obtain ⟨values, sections⟩ := d
  cases values with
  | nil =>
      cases sections with
      | nil => rfl
      | cons first rest =>
          obtain ⟨text, split⟩ := first.exists_head_header
          show skipMark (first.header ++ _ ++ _) = first.header ++ _ ++ _
          rw [split]
          rfl
  | cons pair others =>
      obtain ⟨c, text, split, own⟩ := exists_head_pairLine pair.2 (h.values.each pair List.mem_cons_self).1
      have front : (pair :: others).flatMap pairLine = c :: (text ++ others.flatMap pairLine) := by
        rw [List.flatMap_cons, split, List.cons_append]
      rw [render]
      simp only [front, if_neg (List.cons_ne_nil c _), List.cons_append]
      exact skipMark.eq_2 _ fun behind same => isBareChar_ne own (by decide) (List.cons.inj same).1

/-- A well-formed document is read as a table with what it holds. -/
theorem read?_text {d : Document} (h : d.WellFormed) :
    ∃ fields, read? d.text = some (.table fields) ∧ ∀ name, Table.lookup? name fields = d.field? name := by
  obtain ⟨fields, path, yields, holds⟩ := exists_yields_render h
  refine ⟨Node.fieldsToToml fields, ?_, fun name => ?_⟩
  · rw [read?, text, String.toList_ofList, readChars?]
    simp only [skipMark_render h, yields _ (Nat.lt_succ_self _), Option.map_some, Node.toToml]
  · rw [Node.lookup?_fieldsToToml, holds, map_toToml_node?]

end Document

end Toml

end Intake
