/-
Module: Intake.Proofs.Table
Purpose: The order of the keys of a table, and the entries of a table as a collection.
Main exports: Table.Sorted, Table.Sorted.put, Table.Sorted.erase, Table.Sorted.map, Table.sorted_ofList,
  Table.Sorted.find?_eq_some_iff, Table.Sorted.entries_perm, Table.put_put, Table.Sorted.find?_foldl_put,
  Table.Sorted.entries_put, Table.Sorted.ext
-/
import Mathlib.Order.Defs.Unbundled
import Intake.Table

namespace Intake

namespace Table

variable {α : Type u} {κ : Type} {key k : κ} {value v : α}

/-! ### Lookups

What is found under a key is the first entry with this key. -/

section

variable [DecidableEq κ] {t : Table α κ} {entries : List (κ × α)}

theorem lookup?_eq_none_iff : lookup? k entries = none ↔ ∀ p ∈ entries, p.1 ≠ k := by
  induction entries with
  | nil => simp [lookup?]
  | cons p rest ih =>
      rw [lookup?, List.forall_mem_cons]
      by_cases same : k = p.1
      · simp [same]
      · rw [if_neg same, ih]
        exact ⟨fun others => ⟨Ne.symm same, others⟩, fun both => both.2⟩

theorem mem_of_lookup? (found : lookup? k entries = some v) : (k, v) ∈ entries := by
  induction entries with
  | nil => cases found
  | cons p rest ih =>
      rw [lookup?] at found
      split at found
      · next same =>
          injection found with value
          subst same value
          exact List.mem_cons_self
      · exact List.mem_cons_of_mem p (ih found)

theorem mem_of_find? (found : t.find? k = some v) : (k, v) ∈ t.entries := mem_of_lookup? found

@[simp] theorem find?_map {β : Type v} (t : Table α κ) (f : κ → α → β) (k : κ) :
    (t.map f).find? k = (t.find? k).map (f k) := by
  obtain ⟨entries⟩ := t
  show lookup? k (entries.map fun p => (p.1, f p.1 p.2)) = (lookup? k entries).map (f k)
  induction entries with
  | nil => rfl
  | cons p rest ih =>
      rw [List.map_cons, lookup?, lookup?, ih]
      split
      · next same => rw [same, Option.map_some]
      · rfl

theorem contains_erase : (t.erase key).contains k = true ↔ k ≠ key ∧ t.contains k = true := by
  rw [contains, find?_erase, contains]
  split
  · next same => simp [same]
  · next differs => simp [differs]

/-- Without an entry under a key there is nothing to erase. -/
theorem erase_of_find?_eq_none (missing : t.find? key = none) : t.erase key = t := by
  have kept : t.entries.filter (fun p => p.1 != key) = t.entries := by
    rw [List.filter_eq_self]
    intro p member
    exact bne_iff_ne.mpr (lookup?_eq_none_iff.mp missing p member)
  rw [erase, kept]

end

/-! ### Entries of sorted tables

In a sorted table no key comes twice, so the entry that is found under a key is the only one. -/

/-- The keys ascend, so that none comes twice. -/
def Sorted [LT κ] (t : Table α κ) : Prop := t.entries.Pairwise fun a b => a.1 < b.1

theorem sorted_empty [LT κ] : (empty : Table α κ).Sorted := List.Pairwise.nil

theorem Sorted.map [LT κ] {β : Type v} {t : Table α κ} (h : t.Sorted) (f : κ → α → β) :
    (t.map f).Sorted :=
  List.pairwise_map.mpr h

section

variable [DecidableEq κ] [LT κ] {t : Table α κ}

theorem Sorted.erase (h : t.Sorted) : (t.erase key).Sorted := h.sublist List.filter_sublist

variable [Std.Irrefl fun a b : κ => a < b]

theorem perm_of_lookup? {entries : List (κ × α)} (h : entries.Pairwise fun a b => a.1 < b.1)
    (found : lookup? k entries = some v) :
    entries.Perm ((k, v) :: entries.filter fun p => p.1 != k) := by
  induction entries with
  | nil => cases found
  | cons p rest ih =>
      obtain ⟨less, sorted⟩ := List.pairwise_cons.mp h
      rw [lookup?] at found
      split at found
      · next same =>
          injection found with value
          subst same value
          have others : ∀ q ∈ rest, (q.1 != p.1) = true := by
            intro q member
            rw [bne_iff_ne]
            intro same
            have impossible := less q member
            rw [same] at impossible
            exact Std.Irrefl.irrefl _ impossible
          rw [List.filter_cons_of_neg (by simp), List.filter_eq_self.mpr others]
      · next other =>
          rw [List.filter_cons_of_pos (by simpa using Ne.symm other)]
          exact ((ih sorted found).cons p).trans (List.Perm.swap _ _ _)

/-- The entry found under a key is the only one with this key. -/
theorem Sorted.entries_perm (h : t.Sorted) (found : t.find? k = some v) :
    t.entries.Perm ((k, v) :: (t.erase k).entries) := perm_of_lookup? h found

/-- What is found is what is in the table. -/
theorem Sorted.find?_eq_some_iff (h : t.Sorted) : t.find? k = some v ↔ (k, v) ∈ t.entries := by
  constructor
  · exact mem_of_find?
  · intro member
    cases found : t.find? k with
    | none => exact absurd rfl (lookup?_eq_none_iff.mp found _ member)
    | some other =>
        have inside := (h.entries_perm found).mem_iff.mp member
        rcases List.mem_cons.mp inside with same | elsewhere
        · injection same with _ same
          rw [same]
        · exact absurd (List.mem_filter.mp elsewhere).2 (by simp)

/-- Every value is found under some key. -/
theorem Sorted.mem_values_iff (h : t.Sorted) : v ∈ t.values ↔ ∃ k, t.find? k = some v := by
  rw [values, List.mem_map]
  constructor
  · rintro ⟨⟨k, found⟩, member, rfl⟩
    exact ⟨k, h.find?_eq_some_iff.mpr member⟩
  · rintro ⟨k, found⟩
    exact ⟨(k, v), mem_of_find? found, rfl⟩

/-- Values that tell the keys they stand under are all different. -/
theorem Sorted.nodup_values (h : t.Sorted) {keyOf : α → κ}
    (own : ∀ k v, t.find? k = some v → keyOf v = k) : t.values.Nodup := by
  rw [values, List.Nodup, List.pairwise_map]
  refine h.imp_of_mem ?_
  intro a b ha hb less same
  have key := own a.1 a.2 (h.find?_eq_some_iff.mpr ha)
  rw [same, own b.1 b.2 (h.find?_eq_some_iff.mpr hb)] at key
  rw [key] at less
  exact Std.Irrefl.irrefl _ less

/-- Two sorted tables in which the same is found are one. -/
theorem Sorted.ext [IsTrans κ fun a b => a < b] {u : Table α κ} (ht : t.Sorted) (hu : u.Sorted)
    (same : ∀ k, t.find? k = u.find? k) : t = u := by
  have distinct {w : Table α κ} (hw : w.Sorted) : w.entries.Nodup := by
    refine hw.imp ?_
    rintro a _ less rfl
    exact Std.Irrefl.irrefl _ less
  have members : t.entries.Perm u.entries := by
    rw [List.perm_ext_iff_of_nodup (distinct ht) (distinct hu)]
    rintro ⟨k, v⟩
    rw [← ht.find?_eq_some_iff, ← hu.find?_eq_some_iff, same]
  have entries : t.entries = u.entries := by
    refine members.eq_of_pairwise ?_ ht hu
    intro a b _ _ less more
    exact absurd (IsTrans.trans _ _ _ less more) (Std.Irrefl.irrefl _)
  obtain ⟨_⟩ := t
  obtain ⟨_⟩ := u
  exact congrArg Table.mk entries

end

/-! ### Insertion

A new entry is put where its key belongs, in the place of an older one with the same key. -/

section

variable [DecidableEq κ] [LT κ] [DecidableLT κ] {t : Table α κ}

/-- What is in the list afterwards is the new entry or was there before. -/
theorem mem_insertSorted {entries : List (κ × α)} {p : κ × α}
    (member : p ∈ insertSorted key value entries) : p = (key, value) ∨ p ∈ entries := by
  induction entries with
  | nil => exact Or.inl (List.mem_singleton.mp member)
  | cons first rest ih =>
      rw [insertSorted] at member
      split at member
      · rcases List.mem_cons.mp member with new | later
        · exact Or.inl new
        · exact Or.inr (List.mem_cons_of_mem first later)
      · split at member
        · exact List.mem_cons.mp member
        · rcases List.mem_cons.mp member with here | later
          · exact Or.inr (here ▸ List.mem_cons_self)
          · exact (ih later).imp_right (List.mem_cons_of_mem first)

theorem filter_insertSorted (entries : List (κ × α)) :
    (insertSorted key value entries).filter (fun p => p.1 != key) =
      entries.filter fun p => p.1 != key := by
  induction entries with
  | nil => simp [insertSorted]
  | cons first rest ih =>
      rw [insertSorted]
      split
      · next same => simp [same]
      · split
        · simp
        · rw [List.filter_cons, List.filter_cons, ih]

/-- Erasing what was put leaves what erasing alone leaves. -/
theorem erase_put : (t.put key value).erase key = t.erase key := by
  rw [erase, erase, put, filter_insertSorted]

theorem insertSorted_insertSorted (entries : List (κ × α)) :
    insertSorted key value (insertSorted key v entries) = insertSorted key value entries := by
  induction entries with
  | nil => exact if_pos rfl
  | cons first rest ih =>
      rw [insertSorted, insertSorted]
      split
      · rw [insertSorted, if_pos rfl]
      · next other =>
          split
          · rw [insertSorted, if_pos rfl]
          · next behind => rw [insertSorted, if_neg other, if_neg behind, ih]

/-- Of two values put under one key the second stays. -/
theorem put_put : (t.put key v).put key value = t.put key value :=
  congrArg Table.mk (insertSorted_insertSorted t.entries)

/-- Entries of one table put into another hide what stood under their keys. -/
theorem Sorted.find?_foldl_put [Std.Irrefl fun a b : κ => a < b] {u : Table α κ} (h : u.Sorted)
    (t : Table α κ) (k : κ) :
    (u.entries.foldl (fun t p => t.put p.1 p.2) t).find? k = (u.find? k).or (t.find? k) := by
  obtain ⟨entries⟩ := u
  show (entries.foldl (fun t p => t.put p.1 p.2) t).find? k = (lookup? k entries).or (t.find? k)
  induction entries generalizing t with
  | nil => rfl
  | cons p rest ih =>
      obtain ⟨less, sorted⟩ := List.pairwise_cons.mp h
      rw [List.foldl_cons, ih _ sorted, find?_put, lookup?]
      split
      · next same =>
          have once : lookup? k rest = none := by
            rw [lookup?_eq_none_iff]
            intro q later again
            have impossible := less q later
            rw [again, same] at impossible
            exact Std.Irrefl.irrefl _ impossible
          rw [once, Option.none_or, Option.some_or]
      · rfl

variable [IsTrans κ fun a b => a < b] [Std.Trichotomous fun a b : κ => a < b]

theorem pairwise_insertSorted {entries : List (κ × α)}
    (h : entries.Pairwise fun a b => a.1 < b.1) :
    (insertSorted key value entries).Pairwise fun a b => a.1 < b.1 := by
  induction entries with
  | nil => exact List.pairwise_singleton _ _
  | cons first rest ih =>
      obtain ⟨less, sorted⟩ := List.pairwise_cons.mp h
      rw [insertSorted]
      split
      · next same =>
          subst same
          exact List.pairwise_cons.mpr ⟨less, sorted⟩
      · next other =>
          split
          · next before =>
              refine List.pairwise_cons.mpr ⟨?_, h⟩
              intro p member
              rcases List.mem_cons.mp member with rfl | later
              · exact before
              · exact IsTrans.trans _ _ _ before (less p later)
          · next notBefore =>
              refine List.pairwise_cons.mpr ⟨?_, ih sorted⟩
              intro p member
              rcases mem_insertSorted member with rfl | later
              · rcases Decidable.em (first.1 < key) with behind | notBehind
                · exact behind
                · exact absurd (Std.Trichotomous.trichotomous _ _ notBefore notBehind) other
              · exact less p later

/-- A sorted table stays sorted. -/
theorem Sorted.put (h : t.Sorted) : (t.put key value).Sorted := pairwise_insertSorted h

/-- Entries of a list put in turn. -/
theorem Sorted.foldl_put (h : t.Sorted) (pairs : List (κ × α)) :
    (pairs.foldl (fun t p => t.put p.1 p.2) t).Sorted := by
  induction pairs generalizing t with
  | nil => exact h
  | cons p rest ih => exact ih h.put

theorem sorted_ofList (pairs : List (κ × α)) : (ofList pairs).Sorted := sorted_empty.foldl_put pairs

variable [Std.Irrefl fun a b : κ => a < b]

/-- What is put takes the place of what stood under the key. -/
theorem Sorted.entries_put (h : t.Sorted) :
    (t.put key value).entries.Perm ((key, value) :: (t.erase key).entries) := by
  have found : (t.put key value).find? key = some value := by simp
  rw [← erase_put]
  exact h.put.entries_perm found

end

end Table

end Intake
