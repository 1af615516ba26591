/-
Module: Intake.Proofs.Lists
Purpose: Lists in which the element at one place is replaced, lists of lists that have nothing in common, and lists
  cut behind their last element of a kind.
Main exports: Lists.exists_split, Lists.disjoint_of_nodup_flatMap, Lists.Stops, Lists.takeWhile_append_of_stops,
  Lists.dropWhile_append_of_stops
-/
import Mathlib.Data.List.Nodup
import Mathlib.Data.List.TakeWhile

namespace Intake

namespace Lists

variable {α : Type u} {β : Type v} {l : List α}

/-- A list around one of its places, with any element there. -/
theorem exists_split {place : Nat} {old : α} (here : l[place]? = some old) :
    ∃ before after, l = before ++ old :: after ∧ ∀ new, l.set place new = before ++ new :: after := by
  obtain ⟨bound, rfl⟩ := List.getElem?_eq_some_iff.mp here
  refine ⟨l.take place, l.drop (place + 1), ?_, fun new => ?_⟩
  · rw [List.getElem_cons_drop, List.take_append_drop]
  · exact List.set_eq_take_append_cons_drop .. |>.trans (if_pos bound)

/-- What is in the lists at two places is not in both, if it is nowhere twice. -/
theorem disjoint_of_nodup_flatMap {f : α → List β} (once : (l.flatMap f).Nodup) {one other : Nat}
    {a b : α} (first : l[one]? = some a) (second : l[other]? = some b) (differs : one ≠ other) :
    (f a).Disjoint (f b) := by
  have apart := List.pairwise_iff_getElem.mp (List.nodup_flatMap.mp once).2
  obtain ⟨one_lt, rfl⟩ := List.getElem?_eq_some_iff.mp first
  obtain ⟨other_lt, rfl⟩ := List.getElem?_eq_some_iff.mp second
  rcases Nat.lt_or_gt_of_ne differs with before | behind
  · exact apart one other one_lt other_lt before
  · exact fun x inside there => apart other one other_lt one_lt behind there inside

/-! ### Cuts

A list is cut in front of the first element of another kind. -/

/-- A list that does not begin with an element of a kind. -/
def Stops (p : α → Bool) (l : List α) : Prop := ∀ a ∈ l.head?, p a = false

section

variable {p : α → Bool} {front rest : List α}

theorem stops_cons {a : α} (other : p a = false) : Stops p (a :: rest) := fun _ first =>
  Option.some.inj first ▸ other

theorem stops_dropWhile (p : α → Bool) (l : List α) : Stops p (l.dropWhile p) := by
  intro a first
  have head := List.head?_dropWhile_not p l
  rw [Option.mem_def.mp first] at head
  simpa using head

theorem Stops.takeWhile_eq (stops : Stops p rest) : rest.takeWhile p = [] := by
  cases rest with
  | nil => rfl
  | cons a rest => exact List.takeWhile_cons_of_neg (by simp [stops a rfl])

theorem Stops.dropWhile_eq (stops : Stops p rest) : rest.dropWhile p = rest := by
  cases rest with
  | nil => rfl
  | cons a rest => exact List.dropWhile_cons_of_neg (by simp [stops a rfl])

/-- Elements of a kind up to the first one of another kind. -/
theorem takeWhile_append_of_stops (all : ∀ a ∈ front, p a = true) (stops : Stops p rest) :
    (front ++ rest).takeWhile p = front := by
  rw [List.takeWhile_append_of_pos all, stops.takeWhile_eq, List.append_nil]

theorem dropWhile_append_of_stops (all : ∀ a ∈ front, p a = true) (stops : Stops p rest) :
    (front ++ rest).dropWhile p = rest := by
  rw [List.dropWhile_append_of_pos all, stops.dropWhile_eq]

end

end Lists

end Intake
