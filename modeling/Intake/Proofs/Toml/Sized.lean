/-
Module: Intake.Proofs.Toml.Sized
Purpose: Every number that reading a document yields has 64 binary digits.
Main exports: Toml.Sized, Toml.Node.Sized, Toml.sized_readValue, Toml.sized_read

Numbers come from words alone, where floats are rounded and larger integers are refused.  Everything else only
moves values around: into arrays, into inline tables, and into the tables of the document.
-/
import Intake.Proofs.Number.PlainText
import Intake.Toml.Reader

namespace Intake

namespace Toml

/-- The values whose floats are doubles, and whose integers have 64 binary digits too. -/
inductive Sized : Toml → Prop where
  | string (s : String) : Sized (.string s)
  | integer {n : Int} (bounded : bounded? n = some n) : Sized (.integer n)
  | float {x : Binary64} (double : x.IsDouble) : Sized (.float x)
  | boolean (b : Bool) : Sized (.boolean b)
  | dateTime : Sized .dateTime
  | array {items : List Toml} (all : ∀ item ∈ items, Sized item) : Sized (.array items)
  | table {fields : List (String × Toml)} (all : ∀ field ∈ fields, Sized field.2) :
      Sized (.table fields)

/-! ### Tables under construction

A change of a node puts a value in and leaves the others as they are, so all values stay sized if the new one
is. -/

namespace Node

/-- The nodes that hold such values only. -/
inductive Sized : Node → Prop where
  | value {v : Toml} (sized : v.Sized) : Sized (.value v)
  | table {isImplicit isDotted : Bool} {fields : List (String × Node)}
      (all : ∀ field ∈ fields, Sized field.2) : Sized (.table isImplicit isDotted fields)
  | tables {elements : List Node} (all : ∀ element ∈ elements, Sized element) :
      Sized (.tables elements)

/-- A change that lets nothing else into a node. -/
def Keeps (change : Node → Option Node) : Prop :=
  ∀ node after, node.Sized → change node = some after → after.Sized

variable {key : String} {node after : Node} {fields : List (String × Node)} {elements : List Node}
  {change : Node → Option Node} {path : List String}

theorem sized_emptyTable (isImplicit isDotted : Bool) : (table isImplicit isDotted []).Sized :=
  .table fun _ member => absurd member List.not_mem_nil

theorem sized_lookup (all : ∀ field ∈ fields, field.2.Sized) (found : lookup? key fields = some node) :
    node.Sized := by
  induction fields with
  | nil => cases found
  | cons first rest ih =>
      obtain ⟨k, v⟩ := first
      rw [lookup?] at found
      split at found
      · cases found
        exact all _ List.mem_cons_self
      · exact ih (fun field member => all field (List.mem_cons_of_mem _ member)) found

theorem sized_replace (all : ∀ field ∈ fields, field.2.Sized) (new : node.Sized) :
    ∀ field ∈ replace key node fields, field.2.Sized := by
  induction fields with
  | nil =>
      intro field member
      obtain rfl := List.mem_singleton.mp member
      exact new
  | cons first rest ih =>
      obtain ⟨k, v⟩ := first
      have own : v.Sized := all _ List.mem_cons_self
      have others : ∀ field ∈ rest, field.2.Sized :=
        fun field member => all field (List.mem_cons_of_mem _ member)
      intro field member
      rw [replace] at member
      split at member
      · rcases List.mem_cons.mp member with rfl | behind
        · exact new
        · exact others field behind
      · rcases List.mem_cons.mp member with rfl | behind
        · exact own
        · exact ih others field behind

theorem sized_append (all : ∀ field ∈ fields, field.2.Sized) (new : node.Sized) :
    ∀ field ∈ fields ++ [(key, node)], field.2.Sized := by
  intro field member
  rcases List.mem_append.mp member with old | last
  · exact all field old
  · obtain rfl := List.mem_singleton.mp last
    exact new

theorem sized_changeLast {changed : List Node} (keeps : Keeps change)
    (all : ∀ element ∈ elements, element.Sized) (done : changeLast? change elements = some changed) :
    ∀ element ∈ changed, element.Sized := by
  induction elements generalizing changed with
  | nil => cases done
  | cons first rest ih =>
      cases rest with
      | nil =>
          obtain ⟨last, made, rfl⟩ := Option.map_eq_some_iff.mp done
          intro element member
          obtain rfl := List.mem_singleton.mp member
          exact keeps first _ (all first List.mem_cons_self) made
      | cons second rest =>
          obtain ⟨others, made, rfl⟩ := Option.map_eq_some_iff.mp done
          intro element member
          rcases List.mem_cons.mp member with rfl | behind
          · exact all _ List.mem_cons_self
          · exact ih (fun e member => all e (List.mem_cons_of_mem _ member)) made element behind

/-- A change at a path leaves everything beside the path as it is. -/
theorem keeps_changeAt (dotted : Bool) (path : List String) (keeps : Keeps change) :
    Keeps (changeAt? dotted path change) := by
  induction path with
  | nil => exact keeps
  | cons key path ih =>
      intro node after sized done
      cases sized with
      | value _ => cases done
      | tables _ => cases done
      | table all =>
          simp only [changeAt?] at done
          obtain ⟨inner, made, rfl⟩ := Option.map_eq_some_iff.mp done
          refine .table (sized_replace all ?_)
          split at made
          · exact ih _ _ (sized_emptyTable true dotted) made
          · cases made
          · next elements found =>
              obtain ⟨changed, last, rfl⟩ := Option.map_eq_some_iff.mp made
              cases sized_lookup all found with
              | tables all => exact .tables (sized_changeLast ih all last)
          · next found =>
              split at made
              · cases made
              · exact ih _ _ (sized_lookup all found) made

theorem keeps_addField (throughDots : Bool) (key : String) (new : node.Sized) :
    Keeps (addField? throughDots key node) := by
  intro table after sized done
  cases sized with
  | table all =>
      simp only [addField?] at done
      split at done
      · cases done
        exact .table (sized_append all new)
      · cases done
  | _ => cases done

/-- Adding a sized value keeps a node sized. -/
theorem keeps_addValue {v : Toml} (path : List String) (sized : v.Sized) :
    Keeps (addValue? path v) := by
  intro node after old done
  rw [addValue?] at done
  split at done
  · cases done
  · exact keeps_changeAt true _ (keeps_addField _ _ (.value sized)) _ _ old done

/-- Opening a table keeps a node sized. -/
theorem keeps_openTable (path : List String) : Keeps (openTable? path) := by
  intro node after old done
  rw [openTable?] at done
  split at done
  · cases done
  · refine keeps_changeAt false _ ?_ _ _ old done
    intro parent changed sized made
    cases sized with
    | table all =>
        simp only at made
        split at made
        · cases made
          exact .table (sized_append all (sized_emptyTable false false))
        · next found =>
            cases made
            cases sized_lookup all found with
            | table inner => exact .table (sized_replace all (.table inner))
        · cases made
    | _ => cases made

/-- So does appending one. -/
theorem keeps_appendTable (path : List String) : Keeps (appendTable? path) := by
  intro node after old done
  rw [appendTable?] at done
  split at done
  · cases done
  · refine keeps_changeAt false _ ?_ _ _ old done
    intro parent changed sized made
    have fresh : ∀ element ∈ [table false false []], element.Sized := by
      intro element member
      obtain rfl := List.mem_singleton.mp member
      exact sized_emptyTable false false
    cases sized with
    | table all =>
        simp only at made
        split at made
        · cases made
          exact .table (sized_append all (.tables fresh))
        · next found =>
            cases made
            cases sized_lookup all found with
            | tables inner =>
                refine .table (sized_replace all (.tables fun element member => ?_))
                rcases List.mem_append.mp member with earlier | last
                · exact inner element earlier
                · exact fresh element last
        · cases made
    | _ => cases made

mutual

/-- A finished node is a value like its parts. -/
theorem sized_toToml : ∀ {node : Node}, node.Sized → node.toToml.Sized
  | .value _, .value sized => sized
  | .table _ _ _, .table all => .table (sized_fieldsToToml all)
  | .tables _, .tables all => .array (sized_elementsToToml all)

theorem sized_fieldsToToml : ∀ {fields : List (String × Node)},
    (∀ field ∈ fields, field.2.Sized) → ∀ field ∈ fieldsToToml fields, field.2.Sized
  | [], _ => fun _ member => absurd member List.not_mem_nil
  | (k, node) :: _, all => fun field member =>
    (List.mem_cons.mp member).elim
      (fun first => first ▸ sized_toToml (all (k, node) List.mem_cons_self))
      (sized_fieldsToToml (fun f m => all f (List.mem_cons_of_mem _ m)) field)

theorem sized_elementsToToml : ∀ {elements : List Node},
    (∀ element ∈ elements, element.Sized) → ∀ item ∈ elementsToToml elements, item.Sized
  | [], _ => fun _ member => absurd member List.not_mem_nil
  | node :: _, all => fun item member =>
    (List.mem_cons.mp member).elim
      (fun first => first ▸ sized_toToml (all node List.mem_cons_self))
      (sized_elementsToToml (fun e m => all e (List.mem_cons_of_mem _ m)) item)

end

end Node

/-! ### Values

Every number that is read is checked for its size as it is read. -/

theorem isDouble_readFloat {s : List Char} {x : Binary64} (found : readFloat? s = some x) :
    x.IsDouble := by
  simp only [readFloat?] at found
  split at found
  · cases found
    exact .infinite _
  · split at found
    · cases found
      exact .nan
    · split at found
      · split at found
        · cases found
        · cases found
          exact Binary64.isDouble_toBinary64 _ _
      · cases found

theorem bounded_of_bounded {m n : Int} (within : bounded? m = some n) : bounded? n = some n := by
  have same := within
  rw [bounded?] at same
  split at same
  · cases same
    exact within
  · cases same

theorem bounded_readBased {base : Nat} {s : List Char} {n : Int} (found : readBased? base s = some n) :
    bounded? n = some n := by
  obtain ⟨digits, -, within⟩ := Option.bind_eq_some_iff.mp found
  exact bounded_of_bounded within

theorem bounded_readInteger {s : List Char} {n : Int} (found : readInteger? s = some n) :
    bounded? n = some n := by
  rw [readInteger?.eq_def] at found
  split at found
  · exact bounded_readBased found
  · exact bounded_readBased found
  · exact bounded_readBased found
  · obtain ⟨digits, -, within⟩ := Option.bind_eq_some_iff.mp found
    exact bounded_of_bounded within

theorem sized_readWord {s : List Char} {v : Toml} (found : readWord? s = some v) : v.Sized := by
  rw [readWord?] at found
  split at found
  · cases found
    exact .boolean true
  · split at found
    · cases found
      exact .boolean false
    · split at found
      · cases found
        exact .dateTime
      · split at found
        · next x read =>
            cases found
            exact .float (isDouble_readFloat read)
        · obtain ⟨n, read, rfl⟩ := Option.map_eq_some_iff.mp found
          exact .integer (bounded_readInteger read)

theorem sized_readWordValue {s rest : List Char} {v : Toml}
    (found : readWordValue? s = some (v, rest)) : v.Sized := by
  simp only [readWordValue?] at found
  split at found
  · split at found
    · cases found
      exact .dateTime
    · obtain ⟨word, read, same⟩ := Option.map_eq_some_iff.mp found
      cases same
      exact sized_readWord read
  · obtain ⟨word, read, same⟩ := Option.map_eq_some_iff.mp found
    cases same
    exact sized_readWord read

theorem sized_inlineTable {pairs : List (List String × Toml)} {v : Toml}
    (all : ∀ pair ∈ pairs, pair.2.Sized) (found : inlineTable? pairs = some v) : v.Sized := by
  obtain ⟨node, built, rfl⟩ := Option.map_eq_some_iff.mp found
  refine Node.sized_toToml ?_
  have start := Node.sized_emptyTable false false
  clear found
  revert start built
  generalize Node.table false false [] = root
  intro built start
  induction pairs generalizing root with
  | nil =>
      cases built
      exact start
  | cons pair rest ih =>
      rw [List.foldlM_cons] at built
      obtain ⟨next, added, later⟩ := Option.bind_eq_some_iff.mp built
      refine ih (fun p member => all p (List.mem_cons_of_mem _ member)) next later ?_
      exact Node.keeps_addValue pair.1 (all pair List.mem_cons_self) root next start added

/-- Values, the items of arrays and the pairs of inline tables, read within some fuel. -/
theorem sized_readValues (fuel : Nat) :
    (∀ depth s v rest, readValue? fuel depth s = some (v, rest) → v.Sized) ∧
    (∀ depth s items rest, readItems? fuel depth s = some (items, rest) →
      ∀ item ∈ items, item.Sized) ∧
    (∀ depth s pairs rest, readPairs? fuel depth s = some (pairs, rest) →
      ∀ pair ∈ pairs, pair.2.Sized) := by
  induction fuel with
  | zero => exact ⟨by simp [readValue?], by simp [readItems?], by simp [readPairs?]⟩
  | succ fuel ih =>
      obtain ⟨value, items, pairs⟩ := ih
      refine ⟨?_, ?_, ?_⟩
      · intro depth s v rest found
        rw [readValue?.eq_def] at found
        simp only at found
        split at found
        · obtain ⟨text, -, same⟩ := Option.map_eq_some_iff.mp found
          cases same
          exact .string _
        · obtain ⟨text, -, same⟩ := Option.map_eq_some_iff.mp found
          cases same
          exact .string _
        · split at found
          · obtain ⟨⟨inner, behind⟩, read, same⟩ := Option.map_eq_some_iff.mp found
            cases same
            exact .array (items _ _ _ _ read)
          · cases found
        · split at found
          · split at found
            · cases found
              exact .table fun _ member => absurd member List.not_mem_nil
            · obtain ⟨⟨inner, behind⟩, read, made⟩ := Option.bind_eq_some_iff.mp found
              obtain ⟨table, built, same⟩ := Option.map_eq_some_iff.mp made
              cases same
              exact sized_inlineTable (pairs _ _ _ _ read) built
          · cases found
        · exact sized_readWordValue found
      · intro depth s all rest found
        rw [readItems?.eq_def] at found
        simp only at found
        split at found
        · cases found
        · cases found
          exact fun _ member => absurd member List.not_mem_nil
        · split at found
          · cases found
          · next item behind read =>
              have own := value _ _ _ _ read
              split at found
              · obtain ⟨⟨others, last⟩, more, same⟩ := Option.map_eq_some_iff.mp found
                cases same
                intro element member
                rcases List.mem_cons.mp member with rfl | later
                · exact own
                · exact items _ _ _ _ more element later
              · cases found
                intro element member
                obtain rfl := List.mem_singleton.mp member
                exact own
              · cases found
      · intro depth s all rest found
        rw [readPairs?.eq_def] at found
        simp only at found
        split at found
        · split at found
          · cases found
          · next v behind read =>
              have own := value _ _ _ _ read
              split at found
              · obtain ⟨⟨others, last⟩, more, same⟩ := Option.map_eq_some_iff.mp found
                cases same
                intro pair member
                rcases List.mem_cons.mp member with rfl | later
                · exact own
                · exact pairs _ _ _ _ more pair later
              · cases found
                intro pair member
                obtain rfl := List.mem_singleton.mp member
                exact own
              · cases found
        · cases found

/-- Every value that is read is sized. -/
theorem sized_readValue {fuel depth : Nat} {s rest : List Char} {v : Toml}
    (found : readValue? fuel depth s = some (v, rest)) : v.Sized :=
  (sized_readValues fuel).1 depth s v rest found

/-! ### Documents

The lines of a document are read one after another into a root that stays sized. -/

/-- The lines with such values. -/
def Line.Sized : Line → Prop
  | .pair _ v => v.Sized
  | _ => True

/-- A line holds sized values only. -/
theorem sized_readLine {s rest : List Char} {line : Line} (found : readLine? s = some (line, rest)) :
    line.Sized := by
  rw [readLine?.eq_def] at found
  split at found
  · split at found
    · obtain ⟨behind, -, same⟩ := Option.map_eq_some_iff.mp found
      cases same
      trivial
    · cases found
  · split at found
    · obtain ⟨behind, -, same⟩ := Option.map_eq_some_iff.mp found
      cases same
      trivial
    · cases found
  · split at found
    · simp only at found
      split at found
      · next v behind read =>
          obtain ⟨after, -, same⟩ := Option.map_eq_some_iff.mp found
          cases same
          exact sized_readValue read
      · cases found
    · cases found

/-- Adding it keeps the draft sized. -/
theorem Draft.sized_add {draft after : Draft} {line : Line} (h : draft.root.Sized)
    (sized : line.Sized) (added : draft.add? line = some after) : after.root.Sized := by
  cases line with
  | pair key v =>
      obtain ⟨root, changed, rfl⟩ := Option.map_eq_some_iff.mp added
      exact Node.keeps_changeAt false _ (Node.keeps_addValue key sized) _ _ h changed
  | header path =>
      obtain ⟨root, opened, rfl⟩ := Option.map_eq_some_iff.mp added
      exact Node.keeps_openTable path _ _ h opened
  | element path =>
      obtain ⟨root, opened, rfl⟩ := Option.map_eq_some_iff.mp added
      exact Node.keeps_appendTable path _ _ h opened

/-- Any number of lines keep it sized. -/
theorem sized_readLines {fuel : Nat} {draft after : Draft} {s : List Char} (h : draft.root.Sized)
    (found : readLines? fuel draft s = some after) : after.root.Sized := by
  induction fuel generalizing draft s with
  | zero => cases found
  | succ fuel ih =>
      rw [readLines?.eq_def] at found
      simp only at found
      split at found
      · cases found
        exact h
      · obtain ⟨behind, -, more⟩ := Option.bind_eq_some_iff.mp found
        exact ih h more
      · exact ih h found
      · exact ih h found
      · split at found
        · cases found
        · next line behind read =>
            split at found
            · cases found
            · next added => exact ih (Draft.sized_add h (sized_readLine read) added) found

/-- Whatever a text describes, its numbers have 64 binary digits. -/
theorem sized_read {text : String} {t : Toml} (found : read? text = some t) : t.Sized := by
  obtain ⟨draft, lines, rfl⟩ := Option.map_eq_some_iff.mp found
  exact Node.sized_toToml (sized_readLines (Node.sized_emptyTable false false) lines)

end Toml

end Intake
