/-
Module: Intake.Table
Purpose: Finite maps from keys to values, kept in ascending order of the keys.
Main exports: Table, Table.find?, Table.put, Table.erase, Table.keys, Table.find?_put, Table.find?_erase

Keys are texts unless a table says otherwise.  Texts are compared character by character, which is the
order of their UTF-8 bytes.  Insertion walks to the place of the key once and replaces a value that is
already there, so that looking up after an insertion needs no assumption about the table.
-/

namespace Intake

/-- A finite map from keys to values, in ascending order of the keys. -/
structure Table (α : Type u) (κ : Type := String) where
  entries : List (κ × α)
  deriving Repr, DecidableEq

namespace Table

variable {α : Type u} {κ : Type}

instance : Inhabited (Table α κ) := ⟨⟨[]⟩⟩

def empty : Table α κ := ⟨[]⟩

instance : EmptyCollection (Table α κ) := ⟨empty⟩

def isEmpty (t : Table α κ) : Bool := t.entries.isEmpty

def size (t : Table α κ) : Nat := t.entries.length

def keys (t : Table α κ) : List κ := t.entries.map Prod.fst

def values (t : Table α κ) : List α := t.entries.map Prod.snd

/-- The values changed, each by a function of its key and itself. -/
def map (t : Table α κ) (f : κ → α → β) : Table β κ := ⟨t.entries.map fun p => (p.1, f p.1 p.2)⟩

variable [DecidableEq κ]

/-- The first value listed under a key. -/
def lookup? (key : κ) : List (κ × α) → Option α
  | [] => none
  | (k, v) :: rest => if key = k then some v else lookup? key rest

def find? (t : Table α κ) (key : κ) : Option α := lookup? key t.entries

def contains (t : Table α κ) (key : κ) : Bool := (t.find? key).isSome

def erase (t : Table α κ) (key : κ) : Table α κ := ⟨t.entries.filter fun p => p.1 != key⟩

@[simp] theorem find?_empty (k : κ) : (empty : Table α κ).find? k = none := rfl

theorem lookup?_filter_ne (key : κ) (entries : List (κ × α)) (k : κ) :
    lookup? k (entries.filter fun p => p.1 != key) = if k = key then none else lookup? k entries := by
  induction entries with
  | nil => simp [lookup?]
  | cons p rest ih =>
    obtain ⟨k', v'⟩ := p
    simp only [List.filter_cons]
    by_cases h : k' = key
    · subst h
      simp only [bne_self_eq_false, Bool.false_eq_true, if_false, ih, lookup?]
      split
      · rfl
      · rfl
    · simp only [bne_iff_ne, ne_eq, h, not_false_eq_true, if_true, lookup?, ih]
      by_cases hk : k = k'
      · subst hk; simp [h]
      · simp [hk]

@[simp] theorem find?_erase (t : Table α κ) (key : κ) (k : κ) :
    (t.erase key).find? k = if k = key then none else t.find? k :=
  lookup?_filter_ne key t.entries k

variable [LT κ] [DecidableLT κ]

/-- A value at the place of its key; a value already there is replaced. -/
def insertSorted (key : κ) (value : α) : List (κ × α) → List (κ × α)
  | [] => [(key, value)]
  | (k, v) :: rest =>
    if key = k then (key, value) :: rest
    else if key < k then (key, value) :: (k, v) :: rest
    else (k, v) :: insertSorted key value rest

def put (t : Table α κ) (key : κ) (value : α) : Table α κ := ⟨insertSorted key value t.entries⟩

/-- The table of a list of pairs; of several values for one key the last stays. -/
def ofList (pairs : List (κ × α)) : Table α κ :=
  pairs.foldl (fun t p => t.put p.1 p.2) empty

theorem lookup?_insertSorted (key : κ) (value : α) (entries : List (κ × α)) (k : κ) :
    lookup? k (insertSorted key value entries) =
      if k = key then some value else lookup? k entries := by
  induction entries with
  | nil => simp [insertSorted, lookup?]
  | cons p rest ih =>
    obtain ⟨k', v'⟩ := p
    simp only [insertSorted]
    split
    · next h => subst h; simp only [lookup?]; split <;> rfl
    · split
      · simp only [lookup?]
      · simp only [lookup?, ih]
        by_cases hk : k = k'
        · subst hk
          rename_i h _
          rw [if_pos rfl, if_pos rfl, if_neg (Ne.symm h)]
        · simp [hk]

@[simp] theorem find?_put (t : Table α κ) (key : κ) (value : α) (k : κ) :
    (t.put key value).find? k = if k = key then some value else t.find? k :=
  lookup?_insertSorted key value t.entries k

end Table

end Intake
