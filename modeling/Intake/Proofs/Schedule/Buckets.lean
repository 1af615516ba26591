/-
Module: Intake.Proofs.Schedule.Buckets
Purpose: Buckets in ascending order as a map from seconds to lists of keys.
Main exports: Schedule.Buckets.keysAt, Schedule.Buckets.Ascending, Schedule.Buckets.Hold,
  Schedule.Buckets.Hold.push, Schedule.Buckets.Hold.remove, Schedule.Buckets.Hold.after,
  Schedule.Buckets.Hold.mem_dueBy, Schedule.Buckets.Ascending.dueBy_pushAll

`Hold` ties buckets to a relation between keys and the seconds that they wait for.  Each operation on
buckets then has one lemma, which says what becomes of this relation.
-/
import Intake.Schedule.Scheduler

namespace Intake

namespace Schedule

namespace Buckets

/-- The keys in the bucket of a second; without a bucket there are none. -/
def keysAt (second : Int) : Buckets → List String
  | [] => []
  | (s, keys) :: rest => if s = second then keys else keysAt second rest

/-- Every second has at most one bucket, and earlier seconds come first. -/
def Ascending (buckets : Buckets) : Prop := buckets.Pairwise fun a b => a.1 < b.1

@[simp] theorem keysAt_nil (second : Int) : keysAt second [] = [] := rfl

/-- What waits for a second is in the first bucket of that second. -/
theorem keysAt_cons (second s : Int) (keys : List String) (rest : Buckets) :
    keysAt second ((s, keys) :: rest) = if s = second then keys else keysAt second rest := rfl

/-- Before the first bucket nothing waits. -/
theorem keysAt_eq_nil_of_lt {second : Int} {buckets : Buckets}
    (h : ∀ b ∈ buckets, second < b.1) : keysAt second buckets = [] := by
  induction buckets with
  | nil => rfl
  | cons b rest ih =>
      obtain ⟨s, keys⟩ := b
      have later : second < s := h (s, keys) List.mem_cons_self
      rw [keysAt_cons, if_neg (by omega)]
      exact ih fun b hb => h b (List.mem_cons_of_mem _ hb)

/-- A key that waits for a second stands in a bucket of that second. -/
theorem exists_mem_of_mem_keysAt {second : Int} {key : String} {buckets : Buckets}
    (h : key ∈ keysAt second buckets) : ∃ keys, (second, keys) ∈ buckets ∧ key ∈ keys := by
  induction buckets with
  | nil => simp at h
  | cons b rest ih =>
      obtain ⟨s, keys⟩ := b
      rw [keysAt_cons] at h
      by_cases hs : s = second
      · subst hs
        rw [if_pos rfl] at h
        exact ⟨keys, List.mem_cons_self, h⟩
      · rw [if_neg hs] at h
        obtain ⟨found, member, listed⟩ := ih h
        exact ⟨found, List.mem_cons_of_mem _ member, listed⟩

/-- The bucket of a second is the only one that it has. -/
theorem Ascending.keysAt_of_mem {second : Int} {keys : List String} {buckets : Buckets}
    (ascending : Ascending buckets) (h : (second, keys) ∈ buckets) :
    keysAt second buckets = keys := by
  induction buckets with
  | nil => simp at h
  | cons b rest ih =>
      obtain ⟨s, first⟩ := b
      obtain ⟨before, ordered⟩ := List.pairwise_cons.mp ascending
      rw [keysAt_cons]
      rcases List.mem_cons.mp h with same | later
      · injection same with sameSecond sameKeys
        rw [if_pos sameSecond.symm, sameKeys]
      · have less : s < second := before _ later
        rw [if_neg (by omega)]
        exact ih ordered later

/-! ### Adding a key

A key is added at the end of the bucket of its second, which is put between the others where there was none.
-/

/-- Adding a key changes no bucket but that of its own second. -/
theorem mem_push {second : Int} {key : String} {buckets : Buckets} {b : Int × List String}
    (h : b ∈ push second key buckets) : (b.1 = second ∧ key ∈ b.2) ∨ b ∈ buckets := by
  induction buckets with
  | nil =>
      rw [push, List.mem_singleton] at h
      exact Or.inl (by simp [h])
  | cons first rest ih =>
      obtain ⟨s, keys⟩ := first
      rw [push] at h
      by_cases hs : s = second
      · rw [if_pos hs] at h
        rcases List.mem_cons.mp h with rfl | later
        · exact Or.inl ⟨hs, by simp⟩
        · exact Or.inr (List.mem_cons_of_mem _ later)
      · rw [if_neg hs] at h
        by_cases less : second < s
        · rw [if_pos less] at h
          rcases List.mem_cons.mp h with rfl | later
          · exact Or.inl ⟨rfl, by simp⟩
          · exact Or.inr later
        · rw [if_neg less] at h
          rcases List.mem_cons.mp h with rfl | later
          · exact Or.inr List.mem_cons_self
          · exact (ih later).imp id (List.mem_cons_of_mem _)

/-- The buckets stay in order. -/
theorem Ascending.push {second : Int} {key : String} {buckets : Buckets}
    (ascending : Ascending buckets) : Ascending (push second key buckets) := by
  induction buckets with
  | nil => exact List.pairwise_singleton _ _
  | cons first rest ih =>
      obtain ⟨s, keys⟩ := first
      obtain ⟨before, ordered⟩ := List.pairwise_cons.mp ascending
      rw [Buckets.push]
      by_cases hs : s = second
      · rw [if_pos hs]
        exact List.pairwise_cons.mpr ⟨before, ordered⟩
      · rw [if_neg hs]
        by_cases less : second < s
        · rw [if_pos less]
          refine List.pairwise_cons.mpr ⟨?_, ascending⟩
          intro b hb
          rcases List.mem_cons.mp hb with rfl | later
          · exact less
          · exact Int.lt_trans less (before b later)
        · rw [if_neg less]
          refine List.pairwise_cons.mpr ⟨?_, ih ordered⟩
          intro b hb
          rcases mem_push hb with ⟨here, -⟩ | old
          · show s < b.1
            omega
          · exact before b old

/-- The key is the last one in the bucket of its second. -/
theorem Ascending.keysAt_push {second : Int} {key : String} {buckets : Buckets}
    (ascending : Ascending buckets) (t : Int) :
    keysAt t (Buckets.push second key buckets) =
      if t = second then keysAt second buckets ++ [key] else keysAt t buckets := by
  induction buckets with
  | nil =>
      rw [Buckets.push, keysAt_cons, keysAt_nil, keysAt_nil, List.nil_append]
      by_cases ht : t = second
      · rw [if_pos ht, if_pos ht.symm]
      · rw [if_neg ht, if_neg (Ne.symm ht)]
  | cons first rest ih =>
      obtain ⟨s, keys⟩ := first
      obtain ⟨before, ordered⟩ := List.pairwise_cons.mp ascending
      rw [Buckets.push]
      by_cases hs : s = second
      · subst hs
        rw [if_pos rfl]
        by_cases ht : t = s
        · rw [if_pos ht, ht, keysAt_cons, keysAt_cons, if_pos rfl, if_pos rfl]
        · rw [if_neg ht, keysAt_cons, keysAt_cons, if_neg (Ne.symm ht), if_neg (Ne.symm ht)]
      · rw [if_neg hs]
        by_cases less : second < s
        · -- The key gets a bucket of its own in front, since its second had none.
          have none : keysAt second ((s, keys) :: rest) = [] := by
            apply keysAt_eq_nil_of_lt
            intro b hb
            rcases List.mem_cons.mp hb with rfl | later
            · exact less
            · exact Int.lt_trans less (before b later)
          rw [if_pos less, keysAt_cons, none, List.nil_append]
          by_cases ht : t = second
          · rw [if_pos ht, if_pos ht.symm]
          · rw [if_neg ht, if_neg (Ne.symm ht)]
        · rw [if_neg less, keysAt_cons, ih ordered, keysAt_cons, keysAt_cons, if_neg hs]
          by_cases ht : t = second
          · rw [if_pos ht, if_pos ht, if_neg (by omega)]
          · rw [if_neg ht, if_neg ht]

/-! ### Taking a key out

Taking a key out of the bucket of a second removes it there and nowhere else.  A bucket that is left empty is
dropped. -/

/-- Taking a key out makes no new bucket and keeps the order of the old ones. -/
theorem remove_seconds_sublist (second : Int) (key : String) (buckets : Buckets) :
    ((remove second key buckets).map Prod.fst).Sublist (buckets.map Prod.fst) := by
  induction buckets with
  | nil => exact List.Sublist.refl _
  | cons first rest ih =>
      obtain ⟨s, keys⟩ := first
      rw [remove]
      by_cases hs : s = second
      · rw [if_pos hs]
        split
        · exact List.sublist_cons_self _ _
        · exact List.Sublist.refl _
      · rw [if_neg hs]
        exact ih.cons_cons s

/-- A bucket that taking a key out leaves empty goes with it. -/
theorem remove_filled {second : Int} {key : String} {buckets : Buckets}
    (filled : ∀ b ∈ buckets, b.2 ≠ []) : ∀ b ∈ remove second key buckets, b.2 ≠ [] := by
  induction buckets with
  | nil => simp [remove]
  | cons first rest ih =>
      obtain ⟨s, keys⟩ := first
      have filledRest : ∀ b ∈ rest, b.2 ≠ [] := fun b hb => filled b (List.mem_cons_of_mem _ hb)
      rw [remove]
      by_cases hs : s = second
      · rw [if_pos hs]
        split
        · exact filledRest
        · next left =>
            intro b hb
            rcases List.mem_cons.mp hb with rfl | later
            · exact left
            · exact filledRest b later
      · rw [if_neg hs]
        intro b hb
        rcases List.mem_cons.mp hb with rfl | later
        · exact filled _ List.mem_cons_self
        · exact ih filledRest b later

/-- Buckets are in order if their seconds are. -/
theorem ascending_iff (buckets : Buckets) :
    Ascending buckets ↔ (buckets.map Prod.fst).Pairwise (· < ·) :=
  List.pairwise_map.symm

/-- They stay so when a key is taken out. -/
theorem Ascending.remove {second : Int} {key : String} {buckets : Buckets}
    (ascending : Ascending buckets) : Ascending (Buckets.remove second key buckets) := by
  rw [ascending_iff] at ascending ⊢
  exact ascending.sublist (remove_seconds_sublist second key buckets)

/-- The other keys of the bucket stay in their order. -/
theorem Ascending.keysAt_remove {second : Int} {key : String} {buckets : Buckets}
    (ascending : Ascending buckets) (t : Int) :
    keysAt t (Buckets.remove second key buckets) =
      if t = second then (keysAt second buckets).filter (· != key) else keysAt t buckets := by
  induction buckets with
  | nil => rw [Buckets.remove, keysAt_nil, keysAt_nil, List.filter_nil, ite_self]
  | cons first rest ih =>
      obtain ⟨s, keys⟩ := first
      obtain ⟨before, ordered⟩ := List.pairwise_cons.mp ascending
      rw [Buckets.remove, keysAt_cons, keysAt_cons]
      by_cases hs : s = second
      · subst hs
        rw [if_pos rfl, if_pos rfl]
        -- An emptied bucket goes, and no other one has its second.
        have none : keysAt s rest = [] := keysAt_eq_nil_of_lt before
        by_cases ht : t = s
        · subst ht
          rw [if_pos rfl]
          split
          · next emptied => rw [emptied, none]
          · rw [keysAt_cons, if_pos rfl]
        · rw [if_neg ht, if_neg (Ne.symm ht)]
          split
          · rfl
          · rw [keysAt_cons, if_neg (Ne.symm ht)]
      · rw [if_neg hs, if_neg hs, keysAt_cons, ih ordered]
        by_cases ht : t = second
        · rw [if_pos ht, if_pos ht, if_neg (by omega)]
        · rw [if_neg ht, if_neg ht]

/-! ### Buckets that have begun

The buckets up to a second are those in front.  A drain reads their keys from left to right, and drops them.
-/

/-- The buckets behind a second are in order. -/
theorem Ascending.after {second : Int} {buckets : Buckets} (ascending : Ascending buckets) :
    Ascending (Buckets.after second buckets) :=
  ascending.sublist (List.dropWhile_sublist _)

/-- They are the same as before, and those in front are gone. -/
theorem Ascending.keysAt_after {second : Int} {buckets : Buckets} (ascending : Ascending buckets)
    (t : Int) :
    keysAt t (Buckets.after second buckets) = if t ≤ second then [] else keysAt t buckets := by
  induction buckets with
  | nil => rw [Buckets.after, List.dropWhile_nil, keysAt_nil, ite_self]
  | cons first rest ih =>
      obtain ⟨s, keys⟩ := first
      obtain ⟨before, ordered⟩ := List.pairwise_cons.mp ascending
      by_cases begun : s ≤ second
      · have drop : Buckets.after second ((s, keys) :: rest) = Buckets.after second rest := by
          simp [Buckets.after, begun]
        rw [drop, ih ordered, keysAt_cons]
        by_cases ht : t ≤ second
        · rw [if_pos ht, if_pos ht]
        · rw [if_neg ht, if_neg ht, if_neg (by omega)]
      · have keep : Buckets.after second ((s, keys) :: rest) = (s, keys) :: rest := by
          simp [Buckets.after, begun]
        rw [keep]
        by_cases ht : t ≤ second
        · rw [if_pos ht]
          apply keysAt_eq_nil_of_lt
          intro b hb
          rcases List.mem_cons.mp hb with rfl | later
          · show t < s
            omega
          · have less : s < b.1 := before b later
            omega
        · rw [if_neg ht]

/-- A key is due by a second if it waits for that second or for an earlier one. -/
theorem Ascending.mem_dueBy {second : Int} {buckets : Buckets} (ascending : Ascending buckets)
    (key : String) :
    key ∈ dueBy second buckets ↔ ∃ t, t ≤ second ∧ key ∈ keysAt t buckets := by
  induction buckets with
  | nil => simp [dueBy]
  | cons first rest ih =>
      obtain ⟨s, keys⟩ := first
      obtain ⟨before, ordered⟩ := List.pairwise_cons.mp ascending
      by_cases begun : s ≤ second
      · have take : dueBy second ((s, keys) :: rest) = keys ++ dueBy second rest := by
          simp [dueBy, begun]
        rw [take, List.mem_append, ih ordered]
        constructor
        · rintro (here | ⟨t, due, later⟩)
          · exact ⟨s, begun, by rwa [keysAt_cons, if_pos rfl]⟩
          · obtain ⟨found, member, -⟩ := exists_mem_of_mem_keysAt later
            have less : s < t := before _ member
            exact ⟨t, due, by rwa [keysAt_cons, if_neg (by omega)]⟩
        · rintro ⟨t, due, listed⟩
          rw [keysAt_cons] at listed
          by_cases hs : s = t
          · rw [if_pos hs] at listed
            exact Or.inl listed
          · rw [if_neg hs] at listed
            exact Or.inr ⟨t, due, listed⟩
      · have none : dueBy second ((s, keys) :: rest) = [] := by
          simp [dueBy, begun]
        rw [none]
        constructor
        · intro impossible
          simp at impossible
        · rintro ⟨t, due, listed⟩
          obtain ⟨found, member, -⟩ := exists_mem_of_mem_keysAt listed
          rcases List.mem_cons.mp member with same | later
          · injection same with same
            omega
          · have less : s < t := before _ later
            omega

/-- A key that is added under a second that has begun is the last one due by then. -/
theorem Ascending.dueBy_push {second : Int} {buckets : Buckets} (ascending : Ascending buckets)
    (key : String) : dueBy second (Buckets.push second key buckets) = dueBy second buckets ++ [key] := by
  induction buckets with
  | nil => simp [dueBy, Buckets.push]
  | cons first rest ih =>
      obtain ⟨s, keys⟩ := first
      obtain ⟨before, ordered⟩ := List.pairwise_cons.mp ascending
      rcases Int.lt_trichotomy s second with earlier | rfl | later
      · have extended := ih ordered
        rw [dueBy] at extended ⊢
        rw [Buckets.push, if_neg (by omega), if_neg (by omega)]
        simp [dueBy, Int.le_of_lt earlier, extended]
      · -- Whatever stands behind this bucket has not begun.
        have none : dueBy s rest = [] := by
          cases rest with
          | nil => rfl
          | cons next _ =>
              have ahead : s < next.1 := before next List.mem_cons_self
              simp [dueBy, ahead]
        rw [dueBy] at none
        simp [dueBy, Buckets.push, none]
      · rw [Buckets.push, if_neg (by omega), if_pos later]
        simp [dueBy, later]

/-- Keys added in turn under one second. -/
def pushAll (second : Int) (keys : List String) (buckets : Buckets) : Buckets :=
  keys.foldl (fun buckets key => buckets.push second key) buckets

theorem pushAll_append (second : Int) (keys more : List String) (buckets : Buckets) :
    pushAll second (keys ++ more) buckets = pushAll second more (pushAll second keys buckets) :=
  List.foldl_append

/-- Keys that are added under a second that has begun are due behind all others. -/
theorem Ascending.dueBy_pushAll {second : Int} {buckets : Buckets} (ascending : Ascending buckets)
    (keys : List String) : dueBy second (pushAll second keys buckets) = dueBy second buckets ++ keys := by
  induction keys generalizing buckets with
  | nil => rw [List.append_nil, pushAll, List.foldl_nil]
  | cons key rest ih =>
      show dueBy second (pushAll second rest (buckets.push second key)) = _
      rw [ih ascending.push, ascending.dueBy_push, List.append_assoc, List.singleton_append]

theorem pushAll_singleton (second : Int) (keys more : List String) :
    pushAll second more [(second, keys)] = [(second, keys ++ more)] := by
  induction more generalizing keys with
  | nil => rw [List.append_nil, pushAll, List.foldl_nil]
  | cons key rest ih =>
      show pushAll second rest (Buckets.push second key [(second, keys)]) = _
      rw [Buckets.push, if_pos rfl, ih, List.append_assoc, List.singleton_append]

/-- Where no bucket was, keys make up one bucket. -/
theorem pushAll_nil (second : Int) (keys : List String) :
    pushAll second keys [] = if keys = [] then [] else [(second, keys)] := by
  cases keys with
  | nil => rfl
  | cons key rest =>
      rw [if_neg (List.cons_ne_nil key rest)]
      exact pushAll_singleton second [key] rest

/-- A relation that holds inside each bucket in its order, and from earlier buckets to later ones, holds
among the keys that are due in theirs. -/
theorem Ascending.pairwise_dueBy {second : Int} {buckets : Buckets} {R : String → String → Prop}
    (ascending : Ascending buckets) (inside : ∀ t, (keysAt t buckets).Pairwise R)
    (across : ∀ t u, t < u → ∀ k ∈ keysAt t buckets, ∀ l ∈ keysAt u buckets, R k l) :
    (dueBy second buckets).Pairwise R := by
  have own : ∀ b ∈ buckets.takeWhile (·.1 ≤ second), keysAt b.1 buckets = b.2 :=
    fun b member => ascending.keysAt_of_mem ((List.takeWhile_sublist _).subset member)
  rw [dueBy, List.pairwise_flatMap]
  constructor
  · intro b member
    rw [← own b member]
    exact inside b.1
  · refine (ascending.sublist (List.takeWhile_sublist _)).imp_of_mem ?_
    intro b c hb hc less
    rw [← own b hb, ← own c hc]
    exact across b.1 c.1 less

/-! ### Buckets as a relation between keys and seconds

For most proofs the order inside the buckets does not matter, only which key waits for which second. -/

/-- Buckets that list every key exactly once under each second that it waits for, and hold nothing
else. -/
structure Hold (waits : String → Int → Prop) (buckets : Buckets) : Prop where
  ascending : Ascending buckets
  filled : ∀ b ∈ buckets, b.2 ≠ []
  once : ∀ second, (keysAt second buckets).Nodup
  placed : ∀ key second, key ∈ keysAt second buckets ↔ waits key second

namespace Hold

variable {waits waits' : String → Int → Prop} {buckets : Buckets}

/-- Only the relation counts, not how it is stated. -/
theorem congr (h : Hold waits buckets) (same : ∀ key second, waits key second ↔ waits' key second) :
    Hold waits' buckets :=
  ⟨h.ascending, h.filled, h.once, fun key second => (h.placed key second).trans (same key second)⟩

/-- Where nothing waits, no bucket is there. -/
theorem nil (none : ∀ key second, ¬ waits key second) : Hold waits [] :=
  ⟨List.Pairwise.nil, by simp, by simp, fun key second => by simp [none key second]⟩

/-- A key that waits for nothing is added under one second. -/
theorem push (h : Hold waits buckets) {key : String} (free : ∀ second, ¬ waits key second)
    (second : Int) :
    Hold (fun k t => waits k t ∨ (k = key ∧ t = second)) (Buckets.push second key buckets) := by
  have absent : key ∉ keysAt second buckets := fun listed => free second ((h.placed _ _).mp listed)
  refine ⟨h.ascending.push, ?_, ?_, ?_⟩
  · intro b hb
    rcases mem_push hb with ⟨-, listed⟩ | old
    · exact List.ne_nil_of_mem listed
    · exact h.filled b old
  · intro t
    rw [h.ascending.keysAt_push]
    by_cases ht : t = second
    · rw [if_pos ht]
      refine List.nodup_append.mpr ⟨h.once second, List.pairwise_singleton _ _, ?_⟩
      intro k listed other single
      rw [List.mem_singleton] at single
      rintro rfl
      exact absent (single ▸ listed)
    · rw [if_neg ht]
      exact h.once t
  · intro k t
    rw [h.ascending.keysAt_push]
    by_cases ht : t = second
    · subst ht
      rw [if_pos rfl, List.mem_append, List.mem_singleton, h.placed]
      simp
    · rw [if_neg ht, h.placed]
      simp [ht]

/-- A key is taken out of the bucket of one second. -/
theorem remove (h : Hold waits buckets) (key : String) (second : Int) :
    Hold (fun k t => waits k t ∧ ¬ (k = key ∧ t = second)) (Buckets.remove second key buckets) := by
  refine ⟨h.ascending.remove, remove_filled h.filled, ?_, ?_⟩
  · intro t
    rw [h.ascending.keysAt_remove]
    by_cases ht : t = second
    · rw [if_pos ht]
      exact (h.once second).filter _
    · rw [if_neg ht]
      exact h.once t
  · intro k t
    rw [h.ascending.keysAt_remove]
    by_cases ht : t = second
    · subst ht
      rw [if_pos rfl, List.mem_filter, h.placed]
      simp
    · rw [if_neg ht, h.placed]
      simp [ht]

/-- The buckets of all seconds up to one are dropped. -/
theorem after (h : Hold waits buckets) (second : Int) :
    Hold (fun k t => waits k t ∧ second < t) (Buckets.after second buckets) := by
  refine ⟨h.ascending.after, ?_, ?_, ?_⟩
  · intro b hb
    exact h.filled b ((List.dropWhile_sublist _).subset hb)
  · intro t
    rw [h.ascending.keysAt_after]
    split
    · exact List.Pairwise.nil
    · exact h.once t
  · intro k t
    rw [h.ascending.keysAt_after]
    by_cases ht : t ≤ second
    · rw [if_pos ht]
      simp [Int.not_lt.mpr ht]
    · rw [if_neg ht, h.placed]
      simp [Int.not_le.mp ht]

/-- The keys that are due by a second are those that wait for it or for an earlier one. -/
theorem mem_dueBy (h : Hold waits buckets) (second : Int) (key : String) :
    key ∈ dueBy second buckets ↔ ∃ t, t ≤ second ∧ waits key t := by
  rw [h.ascending.mem_dueBy]
  simp only [h.placed]

end Hold

end Buckets

end Schedule

end Intake
