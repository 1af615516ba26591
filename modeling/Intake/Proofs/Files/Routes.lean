/-
Module: Intake.Proofs.Files.Routes
Purpose: Where a path leads, read off its parts, and what another ending or another name does to it.
Main exports: FilePath.parts_append, FilePath.parts_push_trim, FilePath.name?_of_leadsOn,
  FilePath.parent_of_leadsOn, FilePath.route_withName, FilePath.route_push, FilePath.hasRoom_of_length_le

A path is taken apart into the parts in front of its last slash and the last part.
-/
import Mathlib.Data.List.Induction
import Intake.Files.Path

namespace Intake

namespace FilePath

variable {path : FilePath} {front : List FileName} {last name : FileName}

/-! ### Parts

A path is the list of what stands between its slashes.  Writing something behind it changes the last part
only. -/

/-- Every path has a last part. -/
theorem exists_parts (path : FilePath) : ∃ front last, parts path = front ++ [last] :=
  ⟨_, _, (List.dropLast_concat_getLast (List.splitOn_ne_nil slash path)).symm⟩

theorem slash_notMem_of_mem_parts {part : FileName} (member : part ∈ parts path) : slash ∉ part := by
  induction path generalizing part with
  | nil =>
      rw [parts, List.splitOn_nil, List.mem_singleton] at member
      rw [member]
      exact List.not_mem_nil
  | cons b rest ih =>
      rw [parts, List.splitOn_cons_eq_if_modifyHead] at member
      split at member
      · rcases List.mem_cons.mp member with rfl | later
        · exact List.not_mem_nil
        · exact ih later
      · next other =>
          obtain ⟨first, others, split⟩ := List.exists_cons_of_ne_nil (List.splitOn_ne_nil slash rest)
          rw [split, List.modifyHead_cons] at member
          have known {q : FileName} (inside : q ∈ first :: others) : slash ∉ q := by
            rw [← split] at inside
            exact ih inside
          rcases List.mem_cons.mp member with rfl | later
          · rw [List.mem_cons, not_or]
            exact ⟨fun same => other (beq_iff_eq.mpr same.symm), known List.mem_cons_self⟩
          · exact known (List.mem_cons_of_mem first later)

/-- The parts make up the path again. -/
theorem intercalate_parts (path : FilePath) : [slash].intercalate (parts path) = path :=
  List.intercalate_splitOn slash

/-- The parts of parts that were put together. -/
theorem parts_intercalate {ps : List FileName} (plain : ∀ p ∈ ps, slash ∉ p) (filled : ps ≠ []) :
    parts ([slash].intercalate ps) = ps :=
  List.splitOn_intercalate slash plain filled

/-- The last part stands behind a slash, unless it is the only one. -/
theorem intercalate_append_singleton (h : front ≠ []) (last : FileName) :
    [slash].intercalate (front ++ [last]) = [slash].intercalate front ++ slash :: last := by
  induction front with
  | nil => exact absurd rfl h
  | cons first rest ih =>
      cases rest with
      | nil => rw [List.singleton_append, List.intercalate_cons_cons, List.intercalate_singleton,
          List.intercalate_singleton, List.append_assoc, List.singleton_append]
      | cons second others =>
          rw [List.cons_append, List.cons_append, List.intercalate_cons_cons, ← List.cons_append,
            ih (List.cons_ne_nil _ _), List.intercalate_cons_cons, List.append_assoc, List.append_assoc,
            List.append_assoc]

/-- What is written behind a path becomes part of its last part. -/
theorem parts_append (split : parts path = front ++ [last]) {ending : Bytes} (plain : slash ∉ ending) :
    parts (path ++ ending) = front ++ [last ++ ending] := by
  have inside {part : FileName} (member : part ∈ front ++ [last]) : slash ∉ part := by
    rw [← split] at member
    exact slash_notMem_of_mem_parts member
  have whole : path ++ ending = [slash].intercalate (front ++ [last ++ ending]) := by
    rw [← intercalate_parts path, split]
    cases front with
    | nil => rw [List.nil_append, List.nil_append, List.intercalate_singleton, List.intercalate_singleton]
    | cons first rest =>
        rw [intercalate_append_singleton (List.cons_ne_nil _ _), intercalate_append_singleton (List.cons_ne_nil _ _),
          List.append_assoc, List.cons_append]
  rw [whole]
  apply parts_intercalate _ (by simp)
  intro part member
  rcases List.mem_append.mp member with old | new
  · exact inside (List.mem_append_left _ old)
  · rw [List.mem_singleton.mp new, List.mem_append, not_or]
    exact ⟨inside (List.mem_append_right _ List.mem_cons_self), plain⟩

/-- The last part stands at the end of a path. -/
theorem last_suffix (split : parts path = front ++ [last]) : last <:+ path := by
  rw [← intercalate_parts path, split]
  cases front with
  | nil => simp [List.intercalate_singleton]
  | cons first rest =>
      rw [intercalate_append_singleton (List.cons_ne_nil _ _)]
      exact (List.suffix_cons slash last).trans (List.suffix_append _ _)

/-! ### Routes

A route leaves out the idle parts, those that are empty or a single dot.  What is left says through which
folders the path leads and to which name. -/

/-- A last part ends a route if it leads on; behind nothing it need not. -/
theorem ofParts_append (h : front ≠ [] ∨ leadsOn last = true) :
    Route.ofParts (front ++ [last]) =
      ⟨front.head? == some [], (Route.ofParts front).names ++ [last].filter leadsOn⟩ := by
  cases front with
  | nil =>
      have leads : leadsOn last = true := h.resolve_left (fun none => none rfl)
      have filled : last ≠ [] := bne_iff_ne.mp (Bool.and_eq_true_iff.mp leads).1
      simp [Route.ofParts, filled, List.filter_cons_of_pos leads]
  | cons first rest =>
      rw [List.cons_append, Route.ofParts, Route.ofParts, List.filter_append, List.append_assoc]
      simp

/-- The idle parts are the empty one and the single dot. -/
theorem leadsOn_eq_false_iff : leadsOn last = false ↔ last = [] ∨ last = [FileName.dot] := by
  rw [leadsOn, Bool.and_eq_false_iff, bne_eq_false_iff_eq, bne_eq_false_iff_eq]

/-- Whatever stands in front of it, a long ending makes a name. -/
theorem append_leadsOn (last : FileName) {ending : Bytes} (long : 2 < ending.length) :
    leadsOn (last ++ ending) = true ∧ last ++ ending ≠ [FileName.dot, FileName.dot] := by
  have apart {short : FileName} (h : short.length ≤ 2) : last ++ ending ≠ short := by
    intro same
    have lengths := congrArg List.length same
    rw [List.length_append] at lengths
    omega
  refine ⟨Bool.and_eq_true_iff.mpr ⟨bne_iff_ne.mpr (apart ?_), bne_iff_ne.mpr (apart ?_)⟩, apart ?_⟩ <;> decide

/-- A last part that leads on, and not back, is the name of the path. -/
theorem name?_of_leadsOn (split : parts path = front ++ [last]) (leads : leadsOn last = true)
    (forth : last ≠ [FileName.dot, FileName.dot]) : name? path = some last := by
  have here : last ≠ [FileName.dot] := bne_iff_ne.mp (Bool.and_eq_true_iff.mp leads).2
  rw [name?, route, split, Route.name?, ofParts_append (Or.inr leads), List.filter_cons_of_pos leads]
  simp [here, forth]

/-- A path that ends by leading back has no name. -/
theorem name?_back (split : parts path = front ++ [[FileName.dot, FileName.dot]]) : name? path = none := by
  rw [name?, route, split, Route.name?, ofParts_append (Or.inr (by decide))]
  simp [leadsOn]

/-! ### Another name at the end

To put another name at the end of a path, the idle parts at its end and the name in front of them are taken
off.  The route of what is left is seen by cases on its last part. -/

/-- Some parts without the idle ones at their end. -/
def trim (front : List FileName) : List FileName := (dropIdle front.reverse).reverse

theorem trim_append (filled : front ≠ []) (last : FileName) :
    trim (front ++ [last]) = if leadsOn last then front ++ [last] else trim front := by
  obtain ⟨before, others, split⟩ :=
    List.exists_cons_of_ne_nil (List.reverse_ne_nil_iff.mpr filled)
  rw [trim, List.reverse_append, List.reverse_singleton, List.singleton_append, split, dropIdle]
  split
  · rw [← split]
    simp
  · rw [trim, split]

/-- Idle parts leave a route as it is. -/
theorem ofParts_trim_append (front : List FileName) (last : FileName) :
    Route.ofParts (trim front ++ [last]) = Route.ofParts (front ++ [last]) := by
  induction front using List.reverseRecOn with
  | nil => rfl
  | append_singleton before part ih =>
      rcases Decidable.em (before = []) with rfl | filled
      · rfl
      · rw [trim_append filled]
        split
        · rfl
        · next idle =>
            have same : (Route.ofParts (before ++ [part])).names = (Route.ofParts before).names := by
              rw [ofParts_append (Or.inl filled), List.filter_cons_of_neg idle]
              exact List.append_nil _
            have begins : (before ++ [part]).head? = before.head? := by
              rw [List.head?_append, Option.or_of_isSome (List.isSome_head?.mpr filled)]
            rw [ih, ofParts_append (Or.inl filled), ofParts_append (Or.inl (by simp)), same, begins]

/-- Parts without idle ones at their end are the beginning of all parts. -/
theorem trim_isPrefix (front : List FileName) : trim front <+: front := by
  induction front using List.reverseRecOn with
  | nil => exact List.prefix_refl _
  | append_singleton before part ih =>
      rcases Decidable.em (before = []) with rfl | filled
      · exact List.prefix_refl _
      · rw [trim_append filled]
        split
        · exact List.prefix_refl _
        · exact ih.trans (List.prefix_append before [part])

/-- Without idle ones at their end, parts are none, or the root, or say something at their end. -/
theorem trim_cases (front : List FileName) :
    trim front = [] ∨ trim front = [[]] ∨ ∃ before part, trim front = before ++ [part] ∧ part ≠ [] := by
  induction front using List.reverseRecOn with
  | nil => exact Or.inl rfl
  | append_singleton before part ih =>
      rcases Decidable.em (before = []) with rfl | filled
      · rcases Decidable.em (part = []) with rfl | said
        · exact Or.inr (Or.inl rfl)
        · exact Or.inr (Or.inr ⟨[], part, rfl, said⟩)
      · rw [trim_append filled]
        split
        · next leads => exact Or.inr (Or.inr ⟨before, part, rfl, bne_iff_ne.mp (Bool.and_eq_true_iff.mp leads).1⟩)
        · exact ih

/-- Parts that are not the root alone are put together by slashes. -/
theorem ofParts_of_ne_root {ps : List FileName} (h : ps ≠ [[]]) : ofParts ps = [slash].intercalate ps := by
  unfold ofParts
  split
  · exact absurd rfl h
  · rfl

/-- What stands at the end of a path stands at the end of its last part. -/
theorem getLast?_intercalate (before : List FileName) {part : FileName} (said : part ≠ []) :
    ([slash].intercalate (before ++ [part])).getLast? = part.getLast? := by
  cases before with
  | nil => rw [List.nil_append, List.intercalate_singleton]
  | cons first rest =>
      obtain ⟨b, others, rfl⟩ := List.exists_cons_of_ne_nil said
      rw [intercalate_append_singleton (List.cons_ne_nil _ _), List.getLast?_append, List.getLast?_cons_cons,
        Option.or_of_isSome (by simp)]

/-- Behind what says something at its end, a name stands after a slash. -/
theorem push_ofParts {before : List FileName} {part : FileName} (said : part ≠ []) (plain : slash ∉ part)
    (name : FileName) :
    push (ofParts (before ++ [part])) name = [slash].intercalate (before ++ [part]) ++ slash :: name := by
  have free : ([slash].intercalate (before ++ [part])).getLast? ≠ some slash := by
    rw [getLast?_intercalate before said]
    exact fun ends => plain (List.mem_of_getLast? ends)
  have filled : [slash].intercalate (before ++ [part]) ≠ [] := by
    intro none
    have last := getLast?_intercalate before said
    rw [none, List.getLast?_nil, eq_comm, List.getLast?_eq_none_iff] at last
    exact said last
  have notRoot : before ++ [part] ≠ [[]] := by
    intro root
    have ends := List.append_inj' (root.trans (List.nil_append [[]]).symm) rfl
    exact said (List.singleton_inj.mp ends.2)
  rw [ofParts_of_ne_root notRoot, push, if_neg (not_or.mpr ⟨filled, free⟩)]

/-- A name behind parts that are put together is one part more. -/
theorem parts_push_trim (plain : ∀ part ∈ front, slash ∉ part) (own : slash ∉ name) :
    parts (push (ofParts (trim front)) name) = trim front ++ [name] := by
  have kept : ∀ part ∈ trim front ++ [name], slash ∉ part := by
    intro part member
    rcases List.mem_append.mp member with old | new
    · exact plain part ((trim_isPrefix front).subset old)
    · rw [List.mem_singleton.mp new]
      exact own
  have whole : push (ofParts (trim front)) name = [slash].intercalate (trim front ++ [name]) := by
    rcases trim_cases front with none | root | ⟨before, part, some, said⟩
    · rw [none, List.nil_append, List.intercalate_singleton]
      rfl
    · rw [root, List.singleton_append, List.intercalate_cons_cons, List.intercalate_singleton]
      rfl
    · have free : slash ∉ part :=
        plain part ((trim_isPrefix front).subset (some ▸ List.mem_append_right _ List.mem_cons_self))
      have filled : before ++ [part] ≠ [] := List.append_ne_nil_of_right_ne_nil _ (List.cons_ne_nil _ _)
      rw [some, push_ofParts said free, intercalate_append_singleton filled]
  rw [whole]
  exact parts_intercalate kept (by simp)

/-! ### A name at the end

What the folder of a path is, and where the path leads with another name in it. -/

/-- The folder of a path that ends in a part that leads on. -/
theorem parent_of_leadsOn (split : parts path = front ++ [last]) (leads : leadsOn last = true) :
    parent path = ofParts (trim front) := by
  have cut : dropIdle (parts path).reverse = last :: front.reverse := by
    rw [split, List.reverse_append, List.reverse_singleton, List.singleton_append]
    cases front.reverse with
    | nil => rfl
    | cons before others => exact if_pos leads
  rw [parent, cut, List.tail_cons, trim]

/-- With another name at its end, a path leads through the same folders to that name. -/
theorem route_withName (split : parts path = front ++ [last]) (leads : leadsOn last = true)
    (forth : last ≠ [FileName.dot, FileName.dot]) (own : slash ∉ name) :
    route (withName path name) = Route.ofParts (front ++ [name]) := by
  have plain : ∀ part ∈ front, slash ∉ part := by
    intro part member
    refine slash_notMem_of_mem_parts (?_ : _ ∈ parts path)
    rw [split]
    exact List.mem_append_left _ member
  have found : (name? path).isSome = true := by rw [name?_of_leadsOn split leads forth]; rfl
  rw [withName, if_pos found, parent_of_leadsOn split leads, route, parts_push_trim plain own, ofParts_trim_append]

/-! ### Names in a folder

A name that is joined to a path becomes its last part, with a slash in front of it where there was none. -/

/-- A path that is not empty begins at the root if its first part is empty. -/
theorem rooted_route (filled : path ≠ []) : (route path).rooted = ((parts path).head? == some []) := by
  obtain ⟨first, rest, split⟩ := List.exists_cons_of_ne_nil (List.splitOn_ne_nil slash path)
  have whole := intercalate_parts path
  rw [route, parts, split, Route.ofParts]
  cases rest with
  | nil =>
      rw [parts, split, List.intercalate_singleton] at whole
      rw [whole]
      simp [filled]
  | cons second others => simp

/-- A name behind a path is its last part, and the parts in front of it lead where the path does. -/
theorem exists_parts_push (dir : FilePath) (plain : slash ∉ name) :
    ∃ front, parts (push dir name) = front ++ [name] ∧ (front.head? == some []) = (route dir).rooted ∧
      (Route.ofParts front).names = (route dir).names := by
  have single : parts name = [name] := List.splitOn_eq_singleton plain
  rw [push]
  split
  · next ends =>
      rcases ends with rfl | ends
      · exact ⟨[], single, rfl, rfl⟩
      · obtain ⟨before, rfl⟩ := List.getLast?_eq_some_iff.mp ends
        have split : parts (before ++ [slash]) = parts before ++ [[]] := List.splitOn_append_cons_self before []
        have filled : parts before ≠ [] := List.splitOn_ne_nil slash before
        have same : route (before ++ [slash]) =
            ⟨(parts before).head? == some [], (Route.ofParts (parts before)).names⟩ := by
          rw [route, split, ofParts_append (Or.inl filled)]
          simp [leadsOn]
        exact ⟨parts before, parts_append split plain, by rw [same], by rw [same]⟩
  · next goesOn =>
      refine ⟨parts dir, ?_, (rooted_route (not_or.mp goesOn).1).symm, rfl⟩
      rw [parts, List.splitOn_append_cons_self]
      exact congrArg (parts dir ++ ·) single

/-- It leads to that name in the folder. -/
theorem route_push (dir : FilePath) (leads : leadsOn name = true) (plain : slash ∉ name) :
    route (push dir name) = ⟨(route dir).rooted, (route dir).names ++ [name]⟩ := by
  obtain ⟨front, split, rooted, names⟩ := exists_parts_push dir plain
  rw [route, split, ofParts_append (Or.inr leads), List.filter_cons_of_pos leads, rooted, names]
  rfl

/-- A name behind a path is the name of the path. -/
theorem name?_push (dir : FilePath) (leads : leadsOn name = true) (plain : slash ∉ name)
    (forth : name ≠ [FileName.dot, FileName.dot]) : name? (push dir name) = some name := by
  obtain ⟨front, split, -, -⟩ := exists_parts_push dir plain
  exact name?_of_leadsOn split leads forth

theorem admits_push (dir : FilePath) (leads : leadsOn name = true) (plain : slash ∉ name) (isFolder : Bool) :
    admits (push dir name) isFolder = true := by
  obtain ⟨front, split, -, -⟩ := exists_parts_push dir plain
  rw [admits, split, List.getLast?_concat, Option.any_some, leads, Bool.true_or]

/-! ### Room for a name

The two limits, on a name and on the path to it, are kept together: of two names in one folder the shorter has room
where the longer has. -/

theorem isTooLong_eq_false_iff : path.isTooLong = false ↔ path.length ≤ lengthLimit := by
  rw [isTooLong, decide_eq_false_iff_not, Nat.not_lt]

/-- There is room for a name if both it and the path to it are short enough. -/
theorem hasRoom_iff : path.hasRoom name = true ↔
    name.length ≤ FileName.lengthLimit ∧ (push path name).length ≤ lengthLimit := by
  rw [hasRoom, Bool.and_eq_true, decide_eq_true_iff, Bool.not_eq_true', isTooLong_eq_false_iff]

/-- Nothing of a path or of a name is lost where the name is put behind the path. -/
theorem le_length_push (path : FilePath) (name : FileName) : path.length + name.length ≤ (push path name).length := by
  rw [push]
  split
  · exact Nat.le_of_eq List.length_append.symm
  · rw [List.length_append, List.length_cons]
    exact Nat.add_le_add_left (Nat.le_succ _) _

/-- The path to a longer name is longer. -/
theorem length_push_le (path : FilePath) {short : FileName} (shorter : short.length ≤ name.length) :
    (push path short).length ≤ (push path name).length := by
  rw [push, push]
  split
  · rw [List.length_append, List.length_append]
    exact Nat.add_le_add_left shorter _
  · rw [List.length_append, List.length_append, List.length_cons, List.length_cons]
    exact Nat.add_le_add_left (Nat.succ_le_succ shorter) _

/-- If the path to a name is short enough, so is the path to a shorter one. -/
theorem isTooLong_push_of_length_le {short : FileName} (fits : (push path name).isTooLong = false)
    (shorter : short.length ≤ name.length) : (push path short).isTooLong = false :=
  isTooLong_eq_false_iff.mpr (Nat.le_trans (length_push_le path shorter) (isTooLong_eq_false_iff.mp fits))

/-- Where there is room for a name, there is room for a shorter one. -/
theorem hasRoom_of_length_le {short : FileName} (room : path.hasRoom name = true)
    (shorter : short.length ≤ name.length) : path.hasRoom short = true := by
  obtain ⟨fits, whole⟩ := hasRoom_iff.mp room
  exact hasRoom_iff.mpr ⟨Nat.le_trans shorter fits, Nat.le_trans (length_push_le path shorter) whole⟩

end FilePath

end Intake
