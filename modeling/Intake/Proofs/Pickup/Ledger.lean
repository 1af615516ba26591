/-
Module: Intake.Proofs.Pickup.Ledger
Purpose: Which names are taken while a pickup works on a folder, and which contents are lost.
Main exports: Pickup.Unobstructed, Pickup.Ledger, Pickup.Ledger.arrive, Pickup.Ledger.claim,
  Pickup.Ledger.remove, Pickup.Ledger.setAside, Pickup.Holds.bodies_release

Every new name that a pickup gives to a file can cost the file that had it before.  The ledger says which
of the names that the pickup uses are taken, and that the contents lost are none exactly if none of its
new names was taken.
-/
import Intake.Proofs.Pickup.Claims

namespace Intake

namespace Pickup

open Table

variable {p : Pickup} {initial folder : Folder} {arrived : List Bytes}
  {processed aside held : List (FileName × Bytes)} {file : FileName × Bytes}

/-- No file of the folder as it was stood in the way of a claim or of a file set aside, and no two files
of one name were set aside. -/
structure Unobstructed (initial : Folder) (processed aside held : List (FileName × Bytes)) : Prop where
  claims : ∀ name ∈ (processed ++ aside ++ held).map Prod.fst,
    initial.contains (claimedName name) = false
  once : (aside.map Prod.fst).Nodup
  asides : ∀ name ∈ aside.map Prod.fst, initial.contains (setAsideName name) = false

/-- Which names of claimed files and of files set aside are taken, and what became of the contents:
they are in the folder, or processed, or lost. -/
structure Ledger (initial folder : Folder) (arrived : List Bytes)
    (processed aside held : List (FileName × Bytes)) : Prop where
  claims : ∀ name, folder.contains (claimedName name) = true ↔
    name ∈ held.map Prod.fst ∨
      name ∉ (processed ++ aside ++ held).map Prod.fst ∧
        initial.contains (claimedName name) = true
  asides : ∀ name, folder.contains (setAsideName name) = true ↔
    name ∈ aside.map Prod.fst ∨ initial.contains (setAsideName name) = true
  balance : ∃ lost,
    (initial.bodies ++ arrived).Perm (folder.bodies ++ processed.map Prod.snd ++ lost) ∧
      (lost = [] ↔ Unobstructed initial processed aside held)

/-! ### Obstructions

A rename costs the content of the file that has the new name already.  For the names that a pickup uses, this
can be told from the folder as it was and from the files that were set aside. -/

/-- Settling a file changes nothing about which files were returned. -/
theorem returned_perm_of_processed (processed aside : List (FileName × Bytes)) (member : file ∈ held) :
    ((processed ++ [file]) ++ aside ++ held.erase file).Perm (processed ++ aside ++ held) := by
  rw [List.perm_iff_count]
  intro a
  have taken := (List.perm_cons_erase member).count_eq a
  simp only [List.count_append, List.count_cons, List.count_nil] at taken ⊢
  omega

/-- Setting a file aside does not either. -/
theorem returned_perm_of_aside (processed aside : List (FileName × Bytes)) (member : file ∈ held) :
    (processed ++ (aside ++ [file]) ++ held.erase file).Perm (processed ++ aside ++ held) := by
  rw [List.perm_iff_count]
  intro a
  have taken := (List.perm_cons_erase member).count_eq a
  simp only [List.count_append, List.count_cons, List.count_nil] at taken ⊢
  omega

/-- One more claim is unobstructed if there was no file under its name. -/
theorem unobstructed_claim :
    Unobstructed initial processed aside (held ++ [file]) ↔
      Unobstructed initial processed aside held ∧
        initial.contains (claimedName file.1) = false := by
  have names (name : FileName) : name ∈ (processed ++ aside ++ (held ++ [file])).map Prod.fst ↔
      name ∈ (processed ++ aside ++ held).map Prod.fst ∨ name = file.1 := by
    rw [← List.append_assoc, mem_names_append]
  constructor
  · intro h
    exact ⟨⟨fun name old => h.claims name ((names name).mpr (Or.inl old)), h.once, h.asides⟩,
      h.claims file.1 ((names file.1).mpr (Or.inr rfl))⟩
  · rintro ⟨h, free⟩
    refine ⟨?_, h.once, h.asides⟩
    intro name member
    rcases (names name).mp member with old | rfl
    · exact h.claims name old
    · exact free

/-- A processed file needs no name any more. -/
theorem unobstructed_processed (member : file ∈ held) :
    Unobstructed initial (processed ++ [file]) aside (held.erase file) ↔
      Unobstructed initial processed aside held := by
  have names (name : FileName) :=
    ((returned_perm_of_processed processed aside member).map Prod.fst).mem_iff (a := name)
  constructor
  · intro h
    exact ⟨fun name old => h.claims name ((names name).mpr old), h.once, h.asides⟩
  · intro h
    exact ⟨fun name old => h.claims name ((names name).mp old), h.once, h.asides⟩

/-- One more file set aside is unobstructed if no other has its name and there was none. -/
theorem unobstructed_aside (member : file ∈ held) :
    Unobstructed initial processed (aside ++ [file]) (held.erase file) ↔
      Unobstructed initial processed aside held ∧
        file.1 ∉ aside.map Prod.fst ∧ initial.contains (setAsideName file.1) = false := by
  have names (name : FileName) :=
    ((returned_perm_of_aside processed aside member).map Prod.fst).mem_iff (a := name)
  constructor
  · intro h
    obtain ⟨before, fresh⟩ := nodup_names_append.mp h.once
    refine ⟨⟨fun name old => h.claims name ((names name).mpr old), before, ?_⟩, fresh, ?_⟩
    · intro name old
      exact h.asides name (mem_names_append.mpr (Or.inl old))
    · exact h.asides file.1 (mem_names_append.mpr (Or.inr rfl))
  · rintro ⟨h, fresh, free⟩
    refine ⟨fun name old => h.claims name ((names name).mp old),
      nodup_names_append.mpr ⟨h.once, fresh⟩, ?_⟩
    intro name known
    rcases mem_names_append.mp known with old | rfl
    · exact h.asides name old
    · exact free

/-! ### What single changes do to the ledger

Each change of the folder takes a content from one column of the ledger to another, or adds it to those that
were lost.  The names in use follow the files. -/

namespace Ledger

/-- At first all contents are in the folder. -/
theorem opening (initial : Folder) : Ledger initial initial [] [] [] [] where
  claims := by simp
  asides := by simp
  balance := by
    refine ⟨[], ?_, iff_of_true rfl ⟨by simp, List.nodup_nil, by simp⟩⟩
    simp

/-- A new file takes a name that the pickup does not use for files of its own. -/
theorem arrive (h : Ledger initial folder arrived processed aside held) (plain : folder.Plain)
    {name : FileName} (claimable : isClaimable name = true) (free : folder.contains name = false)
    (body : Bytes) :
    Ledger initial (folder.put name (.file body)) (arrived ++ [body]) processed aside held where
  claims := by
    intro other
    rw [← h.claims other, contains, find?_put,
      if_neg (ne_claimedName_of_isClaimable claimable other).symm]
    rfl
  asides := by
    intro other
    rw [← h.asides other, contains, find?_put,
      if_neg (ne_setAsideName_of_isClaimable claimable other).symm]
    rfl
  balance := by
    obtain ⟨lost, kept, known⟩ := h.balance
    refine ⟨lost, ?_, known⟩
    have put := Folder.bodies_put_of_free plain.sorted free body
    rw [List.perm_iff_count] at kept put ⊢
    intro a
    have before := kept a
    have added := put a
    simp only [List.count_append, List.count_cons, List.count_nil] at before added ⊢
    omega

/-- A new name for a file costs the content of the file that has this name, if there is one. -/
theorem balance_move (h : Ledger initial folder arrived processed aside held) (plain : folder.Plain)
    {source target : FileName} {body : Bytes} (found : folder.find? source = some (.file body))
    (differs : source ≠ target) :
    ∃ lost,
      (initial.bodies ++ arrived).Perm
        (Folder.bodies (folder.move source target body) ++ processed.map Prod.snd ++ lost) ∧
      (lost = [] ↔
        Unobstructed initial processed aside held ∧ folder.contains target = false) := by
  obtain ⟨lost, kept, known⟩ := h.balance
  refine ⟨lost ++ (folder.bodyAt? target).toList, ?_, ?_⟩
  · have moved := plain.bodies_move found differs
    rw [List.perm_iff_count] at kept moved ⊢
    intro a
    have before := kept a
    have after := moved a
    simp only [List.count_append] at before after ⊢
    omega
  · rw [List.append_eq_nil_iff, known, Option.toList_eq_nil_iff, plain.bodyAt?_eq_none_iff]

/-- A claim takes a name that is free, unless it was taken before the pickup began. -/
theorem claim (h : Ledger initial folder arrived processed aside held) (plain : folder.Plain)
    (file : FileName × Bytes) (claimable : isClaimable file.1 = true)
    (found : folder.find? file.1 = some (.file file.2))
    (fresh : file.1 ∉ held.map Prod.fst) :
    Ledger initial (folder.move file.1 (claimedName file.1) file.2) arrived processed aside
      (held ++ [file]) where
  claims := by
    intro name
    have unlike : claimedName name ≠ file.1 := (ne_claimedName_of_isClaimable claimable name).symm
    rw [Folder.contains_move, h.claims name, ← List.append_assoc, mem_names_append,
      mem_names_append]
    by_cases same : name = file.1
    · subst same
      simp
    · have differs : claimedName name ≠ claimedName file.1 := fun named =>
        same (claimedName_injective named)
      simp [same, differs, unlike]
  asides := by
    intro name
    have unlike : setAsideName name ≠ file.1 :=
      (ne_setAsideName_of_isClaimable claimable name).symm
    rw [Folder.contains_move, ← h.asides name]
    simp [unlike, (claimedName_ne_setAsideName file.1 name).symm]
  balance := by
    obtain ⟨lost, kept, known⟩ := h.balance_move plain found
      (ne_claimedName_of_isClaimable claimable file.1)
    refine ⟨lost, kept, known.trans ?_⟩
    rw [unobstructed_claim, ← Bool.not_eq_true, h.claims file.1, not_or, not_and, Bool.not_eq_true]
    -- A name that was claimed before is known to have been free in the beginning.
    constructor
    · rintro ⟨clear, -, free⟩
      refine ⟨clear, ?_⟩
      by_cases old : file.1 ∈ (processed ++ aside ++ held).map Prod.fst
      · exact clear.claims file.1 old
      · exact free old
    · rintro ⟨clear, free⟩
      exact ⟨clear, fresh, fun _ => free⟩

/-- Once a file is settled, its claim is gone from the folder, and the other names are taken as before. -/
theorem claims_of_settled (h : Ledger initial folder arrived processed aside held)
    (holds : Holds p folder held) (member : file ∈ held) {settled : Folder}
    {returned : List (FileName × Bytes)} (all : returned.Perm (processed ++ aside ++ held))
    (gone : ∀ name, settled.contains (claimedName name) = true ↔
      claimedName name ≠ claimedName file.1 ∧ folder.contains (claimedName name) = true)
    (name : FileName) :
    settled.contains (claimedName name) = true ↔
      name ∈ (held.erase file).map Prod.fst ∨
        name ∉ returned.map Prod.fst ∧ initial.contains (claimedName name) = true := by
  rw [(all.map Prod.fst).mem_iff, holds.mem_names_erase member, gone, h.claims name]
  by_cases same : name = file.1
  · subst same
    have known : file.1 ∈ (processed ++ aside ++ held).map Prod.fst :=
      List.mem_map.mpr ⟨file, List.mem_append_right _ member, rfl⟩
    constructor
    · rintro ⟨impossible, -⟩
      exact absurd rfl impossible
    · rintro (⟨-, impossible⟩ | ⟨unknown, -⟩)
      · exact absurd rfl impossible
      · exact absurd known unknown
  · have differs : claimedName name ≠ claimedName file.1 := fun named =>
      same (claimedName_injective named)
    simp [same, differs]

/-- A processed file leaves the folder, and its content is accounted for. -/
theorem remove (h : Ledger initial folder arrived processed aside held) (holds : Holds p folder held)
    (member : file ∈ held) :
    Ledger initial (folder.erase (claimedName file.1)) arrived (processed ++ [file]) aside
      (held.erase file) where
  claims := h.claims_of_settled holds member (returned_perm_of_processed processed aside member)
    fun _ => contains_erase
  asides := by
    intro name
    rw [← h.asides name, contains_erase]
    simp [(claimedName_ne_setAsideName file.1 name).symm]
  balance := by
    obtain ⟨lost, kept, known⟩ := h.balance
    refine ⟨lost, ?_, known.trans (unobstructed_processed member).symm⟩
    have removed := Folder.bodies_erase holds.plain.sorted (holds.kept file member)
    rw [List.perm_iff_count] at kept removed ⊢
    intro a
    have before := kept a
    have after := removed a
    rw [List.map_append, List.map_singleton]
    simp only [List.count_append, List.count_cons, List.count_nil] at before after ⊢
    omega

/-- A file set aside takes a name that only files of its own name are given. -/
theorem setAside (h : Ledger initial folder arrived processed aside held)
    (holds : Holds p folder held) (member : file ∈ held) :
    Ledger initial (folder.move (claimedName file.1) (setAsideName file.1) file.2) arrived processed
      (aside ++ [file]) (held.erase file) where
  claims := by
    refine h.claims_of_settled holds member (returned_perm_of_aside processed aside member) ?_
    intro name
    rw [Folder.contains_move]
    simp [claimedName_ne_setAsideName name file.1]
  asides := by
    intro name
    rw [Folder.contains_move, h.asides name, mem_names_append]
    by_cases same : name = file.1
    · simp [same]
    · have differs : setAsideName name ≠ setAsideName file.1 := fun named =>
        same (setAsideName_injective named)
      simp [same, differs, (claimedName_ne_setAsideName file.1 name).symm]
  balance := by
    obtain ⟨lost, kept, known⟩ := h.balance_move holds.plain (holds.kept file member)
      (claimedName_ne_setAsideName file.1 file.1)
    refine ⟨lost, kept, known.trans ?_⟩
    rw [unobstructed_aside member, ← Bool.not_eq_true, h.asides file.1, not_or, Bool.not_eq_true]

end Ledger

/-! ### The end

At the end, the files that are still held are given back under their own names.  What arrived under one of
these names in the meantime is lost. -/

/-- Giving back one file leaves the others held. -/
theorem Holds.release (h : Holds p folder (file :: held)) :
    Holds p (folder.move (claimedName file.1) file.1 file.2) held := by
  have settled := h.of_erase List.mem_cons_self
    (h.plain.move (claimedName file.1) file.1 file.2) ?_
  · rw [List.erase_cons_head] at settled
    exact settled
  · intro other here differs
    have claimable := h.claimable file List.mem_cons_self
    rw [Folder.find?_move, if_neg (ne_claimedName_of_isClaimable claimable other.1).symm,
      if_neg fun same => differs (claimedName_injective same)]

/-- Giving back the files that are held costs the contents of the files that have their names. -/
theorem Holds.bodies_release (h : Holds p folder held) :
    ∃ lost,
      folder.bodies.Perm (Folder.bodies
        ((held.map fun file => claimedName file.1).foldl p.releaseOne folder) ++ lost) ∧
      (lost = [] ↔ ∀ file ∈ held, folder.contains file.1 = false) := by
  induction held generalizing folder with
  | nil => exact ⟨[], by simp, by simp⟩
  | cons file rest ih =>
      have found := h.kept file List.mem_cons_self
      have claimable := h.claimable file List.mem_cons_self
      have differs := (ne_claimedName_of_isClaimable claimable file.1).symm
      have released := releaseOne_eq h.plain claimable (h.room file List.mem_cons_self) found
      obtain ⟨lost, kept, known⟩ := ih h.release
      have moved := h.plain.bodies_move found differs
      refine ⟨lost ++ (folder.bodyAt? file.1).toList, ?_, ?_⟩
      · rw [List.map_cons, List.foldl_cons, released]
        rw [List.perm_iff_count] at kept moved ⊢
        intro a
        have before := moved a
        have after := kept a
        simp only [List.count_append] at before after ⊢
        omega
      · rw [List.append_eq_nil_iff, known, Option.toList_eq_nil_iff,
          h.plain.bodyAt?_eq_none_iff, List.forall_mem_cons, and_comm]
        have apart : file.1 ∉ rest.map Prod.fst := (List.nodup_cons.mp h.distinct).1
        -- The names of the other files are taken after the first is given back as they were before.
        have same (other : FileName × Bytes) (later : other ∈ rest) :
            Table.contains (folder.move (claimedName file.1) file.1 file.2) other.1 =
              folder.contains other.1 := by
          have differs : other.1 ≠ file.1 := fun named =>
            apart (List.mem_map.mpr ⟨other, later, named⟩)
          have unlike := ne_claimedName_of_isClaimable
            (h.claimable other (List.mem_cons_of_mem file later)) file.1
          rw [Bool.eq_iff_iff, Folder.contains_move]
          simp [differs, unlike]
        exact and_congr_right' (forall₂_congr fun other later => by rw [same other later])

end Pickup

end Intake
