/-
Module: Intake.Proofs.Pickup.Interruption
Purpose: What is back under its own name after a poll was dropped at any of its points.
Main exports: Pickup.Taken, Pickup.Taken.release, Pickup.Underway, Pickup.Underway.suspended,
  Pickup.exists_suspended_eq_poll, Pickup.GivenBack, Pickup.dropped_restores_iff,
  Pickup.dropped_behind_rename_keeps_claim

A poll renames a file before it notes the claim, and a new name replaces what had it before.  These are
the two ways in which giving back what was noted may not undo a poll.
-/
import Intake.Pickup.Suspension
import Intake.Proofs.Pickup.Claims

namespace Intake

namespace Pickup

open Table

variable {p q : Pickup} {path : FilePath} {start folder changed : Folder} {files noted : List (FileName × Bytes)}
  {file : FileName × Bytes} {name : FileName} {names : List FileName} {body : Bytes}
  {progress : Progress} {steps : Nat}

/-! ### Folders with claimed files

While a poll is on its way, the folder is the start with some files under their claimed names.  Everything a
poll finds in it can be told from the start and from these files. -/

/-- A folder in which some files of the start have their names as claims, and in which nothing else has
changed. -/
structure Taken (start : Folder) (files : List (FileName × Bytes)) (folder : Folder) : Prop where
  sorted : folder.Sorted
  claimable : ∀ file ∈ files, isClaimable file.1 = true
  distinct : (files.map Prod.fst).Nodup
  there : ∀ file ∈ files, start.find? file.1 = some (.file file.2)
  claimed : ∀ file ∈ files, folder.find? (claimedName file.1) = some (.file file.2)
  gone : ∀ file ∈ files, folder.find? file.1 = none
  others : ∀ name, (∀ file ∈ files, name ≠ file.1 ∧ name ≠ claimedName file.1) →
    folder.find? name = start.find? name

/-- At the start, nothing is taken. -/
theorem taken_nil (sorted : start.Sorted) : Taken start [] start where
  sorted := sorted
  claimable := by simp
  distinct := List.nodup_nil
  there := by simp
  claimed := by simp
  gone := by simp
  others := fun _ _ => rfl

namespace Taken

/-- A file that is not taken yet is where it was at the start. -/
theorem find?_of_fresh (h : Taken start files folder) (claimable : isClaimable name = true)
    (fresh : name ∉ files.map Prod.fst) : folder.find? name = start.find? name := by
  apply h.others
  intro file member
  refine ⟨?_, ne_claimedName_of_isClaimable claimable file.1⟩
  rintro rfl
  exact fresh (List.mem_map_of_mem member)

/-- One more file gets its name as a claim. -/
theorem rename (h : Taken start files folder) (claimable : isClaimable name = true)
    (fresh : name ∉ files.map Prod.fst) (there : start.find? name = some (.file body))
    (renamed : folder.rename path name (claimedName name) = .ok changed) :
    Taken start (files ++ [(name, body)]) changed := by
  have unlike := ne_claimedName_of_isClaimable claimable
  have found := (h.find?_of_fresh claimable fresh).trans there
  obtain ⟨rfl, -⟩ := Folder.eq_move_of_rename found (unlike name) renamed
  have old (file : FileName × Bytes) (member : file ∈ files) : file.1 ≠ name := by
    rintro rfl
    exact fresh (List.mem_map_of_mem member)
  refine ⟨h.sorted.erase.put, ?_, nodup_names_append.mpr ⟨h.distinct, fresh⟩, ?_, ?_, ?_, ?_⟩
  · simpa [or_imp, forall_and] using ⟨fun a b member => h.claimable (a, b) member, claimable⟩
  · simpa [or_imp, forall_and] using ⟨fun a b member => h.there (a, b) member, there⟩
  · intro file member
    rw [Folder.find?_move]
    rcases List.mem_append.mp member with before | new
    · have differs : claimedName file.1 ≠ claimedName name := fun same =>
        old file before (claimedName_injective same)
      rw [if_neg differs, if_neg (unlike file.1).symm]
      exact h.claimed file before
    · rw [List.mem_singleton.mp new, if_pos rfl]
  · intro file member
    rw [Folder.find?_move]
    rcases List.mem_append.mp member with before | new
    · have apart := ne_claimedName_of_isClaimable (h.claimable file before) name
      rw [if_neg apart, if_neg (old file before)]
      exact h.gone file before
    · rw [List.mem_singleton.mp new, if_neg (unlike name), if_pos rfl]
  · intro other apart
    obtain ⟨before, new⟩ := List.forall_mem_append.mp apart
    obtain ⟨notName, notClaim⟩ := new (name, body) (List.mem_singleton_self _)
    rw [Folder.find?_move, if_neg notClaim, if_neg notName]
    exact h.others other before

/-- A file that gets its name as a claim leaves room for it. -/
theorem leavesRoom_of_rename (h : Taken start files folder) (claimable : isClaimable name = true)
    (fresh : name ∉ files.map Prod.fst) (there : start.find? name = some (.file body))
    (renamed : folder.rename p.path name (claimedName name) = .ok changed) : p.leavesRoom (name, body) = true :=
  (Folder.eq_move_of_rename ((h.find?_of_fresh claimable fresh).trans there)
    (ne_claimedName_of_isClaimable claimable name) renamed).2

/-- A file that is given back leaves nothing under the name that it had as a claim. -/
theorem releaseOne (h : Taken start (file :: files) folder) (room : p.leavesRoom file = true) :
    Taken (start.erase (claimedName file.1)) files (p.releaseOne folder (claimedName file.1)) := by
  have claimable := h.claimable file List.mem_cons_self
  have unlike := ne_claimedName_of_isClaimable claimable
  obtain ⟨apart, distinct⟩ := List.nodup_cons.mp h.distinct
  have released : p.releaseOne folder (claimedName file.1) =
      folder.move (claimedName file.1) file.1 file.2 := by
    have renamed := Folder.rename_eq_of_free (h.claimed file List.mem_cons_self) room
      (hasRoom_of_leavesRoom room) (unlike file.1).symm (h.gone file List.mem_cons_self)
    rw [releaseOne_claimedName p claimable, renamed]
    rfl
  have differs (other : FileName × Bytes) (member : other ∈ files) : other.1 ≠ file.1 := by
    intro same
    exact apart (List.mem_map.mpr ⟨other, member, same⟩)
  have unclaimed (other : FileName × Bytes) (member : other ∈ files) (name : FileName) :
      other.1 ≠ claimedName name :=
    ne_claimedName_of_isClaimable (h.claimable other (List.mem_cons_of_mem _ member)) name
  rw [released]
  refine ⟨h.sorted.erase.put, ?_, distinct, ?_, ?_, ?_, ?_⟩
  · exact fun other member => h.claimable other (List.mem_cons_of_mem _ member)
  · intro other member
    rw [find?_erase, if_neg (unclaimed other member file.1)]
    exact h.there other (List.mem_cons_of_mem _ member)
  · intro other member
    have apart : claimedName other.1 ≠ claimedName file.1 := fun same =>
      differs other member (claimedName_injective same)
    rw [Folder.find?_move, if_neg (unlike other.1).symm, if_neg apart]
    exact h.claimed other (List.mem_cons_of_mem _ member)
  · intro other member
    rw [Folder.find?_move, if_neg (differs other member), if_neg (unclaimed other member file.1)]
    exact h.gone other (List.mem_cons_of_mem _ member)
  · intro name apart
    rw [Folder.find?_move, find?_erase]
    by_cases own : name = file.1
    · rw [if_pos own, own, if_neg (unlike file.1)]
      exact (h.there file List.mem_cons_self).symm
    · rw [if_neg own]
      by_cases claim : name = claimedName file.1
      · rw [if_pos claim, if_pos claim]
      · rw [if_neg claim, if_neg claim]
        exact h.others name (List.forall_mem_cons.mpr ⟨⟨own, claim⟩, apart⟩)

/-- Files that are given back leave nothing under the names that they had as claims. -/
theorem release (h : Taken start (noted ++ files) folder)
    (room : ∀ file ∈ noted, p.leavesRoom file = true) :
    ∃ cleared : Folder,
      Taken cleared files ((noted.map fun file => claimedName file.1).foldl p.releaseOne folder) ∧
      ∀ name, cleared.find? name =
        if name ∈ noted.map (fun file => claimedName file.1) then none else start.find? name := by
  induction noted generalizing start folder with
  | nil => exact ⟨start, h, fun name => by simp⟩
  | cons file rest ih =>
      obtain ⟨first, others⟩ := List.forall_mem_cons.mp room
      obtain ⟨cleared, left, known⟩ := ih (h.releaseOne first) others
      refine ⟨cleared, left, fun name => ?_⟩
      rw [known name, find?_erase, List.map_cons]
      by_cases first : name = claimedName file.1
      · simp [first]
      · simp only [List.mem_cons, first, false_or, if_false]

end Taken

/-! ### Polls on their way

A poll can be dropped wherever it waits.  There, the files that it has renamed are those whose claims are
noted, and at most one more. -/

/-- The names that a poll has still to try: files of the start, none of them twice and none taken. -/
structure Ahead (start : Folder) (files : List (FileName × Bytes)) (names : List FileName) :
    Prop where
  distinct : names.Nodup
  fresh : ∀ name ∈ names, name ∉ files.map Prod.fst
  there : ∀ name ∈ names, isClaimable name = true ∧ ∃ body, start.find? name = some (.file body)

/-- What comes after the next name is still ahead. -/
theorem Ahead.tail (h : Ahead start files (name :: names)) : Ahead start files names where
  distinct := (List.nodup_cons.mp h.distinct).2
  fresh := fun other member => h.fresh other (List.mem_cons_of_mem _ member)
  there := fun other member => h.there other (List.mem_cons_of_mem _ member)

/-- The next file is taken, and the others are still ahead. -/
theorem Ahead.taken (h : Ahead start files (name :: names)) (body : Bytes) :
    Ahead start (files ++ [(name, body)]) names where
  distinct := h.tail.distinct
  fresh := by
    intro other member known
    rcases mem_names_append.mp known with before | same
    · exact h.tail.fresh other member before
    · obtain rfl : other = name := same
      exact (List.nodup_cons.mp h.distinct).1 member
  there := h.tail.there

/-- The names that a poll lists are those of files. -/
theorem ahead_candidates (sorted : start.Sorted) (limit : Nat) :
    Ahead start [] (candidates limit start) where
  distinct := nodup_candidates sorted limit
  fresh := by simp
  there := fun _ member => mem_candidates sorted member

/-- Where a poll of a pickup without claims may be: how far it is, the pickup, the folder and the files
whose claims are noted.  All files that have been renamed left room for it. -/
inductive Underway (p : Pickup) (start : Folder) :
    Progress → Pickup → Folder → List (FileName × Bytes) → Prop where
  | listing : Underway p start .listing (p.holding []) start []
  | choosing {folder : Folder} {noted : List (FileName × Bytes)} {names : List FileName}
      (taken : Taken start noted folder) (room : ∀ file ∈ noted, p.leavesRoom file = true)
      (ahead : Ahead start noted names) :
      Underway p start (.renaming names (p.itemsOf noted)) (p.holding noted) folder noted
  | renamed {folder : Folder} {noted : List (FileName × Bytes)} {file : FileName × Bytes}
      {names : List FileName} (taken : Taken start (noted ++ [file]) folder)
      (room : ∀ other ∈ noted ++ [file], p.leavesRoom other = true) (ahead : Ahead start (noted ++ [file]) names) :
      Underway p start (.reading file.1 names (p.itemsOf noted)) (p.holding noted) folder noted
  | read {folder : Folder} {noted : List (FileName × Bytes)} {file : FileName × Bytes}
      {names : List FileName} (taken : Taken start (noted ++ [file]) folder)
      (room : ∀ other ∈ noted ++ [file], p.leavesRoom other = true) (ahead : Ahead start (noted ++ [file]) names) :
      Underway p start (.noting file.1 file.2 names (p.itemsOf noted)) (p.holding noted) folder noted
  | finished {folder : Folder} {noted : List (FileName × Bytes)} (taken : Taken start noted folder)
      (room : ∀ file ∈ noted, p.leavesRoom file = true) :
      Underway p start (.finished (p.itemsOf noted)) (p.holding noted) folder noted

namespace Underway

/-- The claim that is noted is a new one. -/
theorem insertClaim_eq (taken : Taken start (noted ++ [file]) folder) :
    (p.holding noted).insertClaim (claimedName file.1) = p.holding (noted ++ [file]) := by
  have unknown : claimedName file.1 ∉ (p.holding noted).claimed := by
    intro known
    obtain ⟨other, member, same⟩ := List.mem_map.mp known
    exact (nodup_names_append.mp taken.distinct).2
      (List.mem_map.mpr ⟨other, member, claimedName_injective same⟩)
  rw [insertClaim, if_neg unknown, holding, holding, List.map_append, List.map_singleton]

/-- Each step of a poll leads to a point at which it may be dropped again. -/
theorem step (sorted : start.Sorted) (h : Underway p start progress q folder noted) :
    ∃ noted, Underway p start (q.step folder progress).1 (q.step folder progress).2.1
      (q.step folder progress).2.2 noted := by
  cases h with
  | listing => exact ⟨[], .choosing (taken_nil sorted) (by simp) (ahead_candidates sorted p.limit)⟩
  | @choosing _ _ names taken room ahead =>
      cases names with
      | nil => exact ⟨noted, .finished taken room⟩
      | cons name rest =>
          obtain ⟨claimable, body, there⟩ := ahead.there name List.mem_cons_self
          rw [Pickup.step]
          cases renamed : folder.rename (p.holding noted).path name (claimedName name) with
          | error cause => exact ⟨noted, .choosing taken room ahead.tail⟩
          | ok changed =>
              have fresh := ahead.fresh name List.mem_cons_self
              have moved := taken.rename claimable fresh there renamed
              have more := taken.leavesRoom_of_rename (p := p) claimable fresh there renamed
              refine ⟨noted, Underway.renamed moved ?_ (ahead.taken body)⟩
              exact List.forall_mem_append.mpr ⟨room, List.forall_mem_singleton.mpr more⟩
  | @renamed _ _ file _ taken room ahead =>
      have read : folder.read (claimedName file.1) = .ok file.2 := by
        rw [Folder.read, taken.claimed file (by simp)]
      rw [Pickup.step, read]
      exact ⟨noted, .read taken room ahead⟩
  | @read _ _ file _ taken room ahead =>
      have items : p.itemsOf noted ++ [p.itemOf file.1 file.2] = p.itemsOf (noted ++ [file]) := by
        rw [itemsOf, itemsOf, List.map_append, List.map_singleton]
      refine ⟨noted ++ [file], ?_⟩
      rw [Pickup.step, insertClaim_eq taken]
      show Underway p start (.renaming _ (p.itemsOf noted ++ [p.itemOf file.1 file.2])) _ _ _
      rw [items]
      exact .choosing taken room ahead
  | finished taken room => exact ⟨noted, .finished taken room⟩

/-- A poll is on its way after any number of steps. -/
theorem suspended (sorted : start.Sorted) (unclaimed : p.claimed = []) (steps : Nat) :
    ∃ noted, Underway p start (p.suspended start steps).1 (p.suspended start steps).2.1
      (p.suspended start steps).2.2 noted := by
  induction steps with
  | zero =>
      have same : p.holding [] = p := by rw [holding, List.map_nil, ← unclaimed]
      exact ⟨[], same ▸ .listing⟩
  | succ steps ih =>
      obtain ⟨noted, h⟩ := ih
      exact h.step sorted

/-- What a poll has taken is noted, apart from at most one file. -/
theorem summary (sorted : start.Sorted) (h : Underway p start progress q folder noted) :
    q = p.holding noted ∧ progress.items = p.itemsOf noted ∧ (∀ file ∈ noted, p.leavesRoom file = true) ∧
      ∃ open? : Option (FileName × Bytes), progress.unnoted? = open?.map Prod.fst ∧
        Taken start (noted ++ open?.toList) folder := by
  cases h with
  | listing => exact ⟨rfl, rfl, by simp, none, rfl, taken_nil sorted⟩
  | choosing taken room ahead => exact ⟨rfl, rfl, room, none, rfl, by simpa using taken⟩
  | @renamed _ _ file _ taken room ahead =>
      exact ⟨rfl, rfl, (List.forall_mem_append.mp room).1, some file, rfl, taken⟩
  | @read _ _ file _ taken room ahead =>
      exact ⟨rfl, rfl, (List.forall_mem_append.mp room).1, some file, rfl, taken⟩
  | finished taken room => exact ⟨rfl, rfl, room, none, rfl, by simpa using taken⟩

end Underway

/-! ### Polls that are not dropped

A poll that is taken to its end step by step does what a poll does at once, so what was proved about whole
polls is true of these as well. -/

/-- From the choice of the next file on, a poll comes to what claiming the other files in turn does. -/
theorem suspended_claimAll {items : List Item}
    (h : p.suspended start steps = (.renaming names items, q, folder)) :
    ∃ more, p.suspended start (steps + more) =
      (.finished (items ++ (q.claimAll folder names).1), (q.claimAll folder names).2) := by
  induction names generalizing steps items q folder with
  | nil =>
      refine ⟨1, ?_⟩
      rw [suspended, h, claimAll, List.append_nil]
      rfl
  | cons name rest ih =>
      -- However the attempt ends, the poll then chooses among the other files.
      have next {steps : Nat} {found : List Item} {r : Pickup} {changed : Folder}
          (reached : p.suspended start steps = (.renaming rest (items ++ found), r, changed)) :
          ∃ more, p.suspended start (steps + more) =
            (.finished (items ++ (found ++ (r.claimAll changed rest).1)),
              (r.claimAll changed rest).2) := by
        obtain ⟨more, result⟩ := ih reached
        exact ⟨more, by rw [result, List.append_assoc]⟩
      cases renamed : folder.rename q.path name (claimedName name) with
      | error cause =>
          have passed : p.suspended start (steps + 1) = (.renaming rest (items ++ []), q, folder) := by
            rw [suspended, h, List.append_nil]
            simp only [step, renamed]
          obtain ⟨more, result⟩ := next passed
          refine ⟨1 + more, ?_⟩
          rw [← Nat.add_assoc, result, claimAll, claim, renamed]
          rfl
      | ok changed =>
          have reading : p.suspended start (steps + 1) = (.reading name rest items, q, changed) := by
            rw [suspended, h]
            simp only [step, renamed]
          cases read : changed.read (claimedName name) with
          | error cause =>
              have passed : p.suspended start (steps + 2) =
                  (.renaming rest (items ++ []), q, q.restore changed name) := by
                rw [suspended, reading, List.append_nil]
                simp only [step, read]
              obtain ⟨more, result⟩ := next passed
              refine ⟨2 + more, ?_⟩
              rw [← Nat.add_assoc, result, claimAll, claim, renamed]
              simp only [read]
              rfl
          | ok body =>
              have noting : p.suspended start (steps + 2) =
                  (.noting name body rest items, q, changed) := by
                rw [suspended, reading]
                simp only [step, read]
              have noted : p.suspended start (steps + 3) =
                  (.renaming rest (items ++ [q.itemOf name body]), q.insertClaim (claimedName name),
                    changed) := by
                rw [suspended, noting]
                rfl
              obtain ⟨more, result⟩ := next noted
              refine ⟨3 + more, ?_⟩
              rw [← Nat.add_assoc, result, claimAll, claim, renamed]
              simp only [read]
              rfl

/-- Taken step by step to its end, a poll comes to what a poll does at once. -/
theorem exists_suspended_eq_poll (p : Pickup) (folder : Folder) :
    ∃ steps, p.suspended folder steps = (.finished (p.poll folder).1, (p.poll folder).2) := by
  have listed : p.suspended folder 1 = (.renaming (candidates p.limit folder) [], p, folder) := rfl
  obtain ⟨more, result⟩ := suspended_claimAll listed
  exact ⟨1 + more, by rw [result, List.nil_append, poll]⟩

/-! ### Polls that are dropped

What a dropped poll leaves is given back from the claims that it has noted.  This undoes the poll, except for
a file that was renamed and not noted, and for a file whose name a claim has taken. -/

/-- What a dropped poll leaves once the noted claims are given back: the files of these claims are back,
at most one more has the name of its claim, and nothing else has changed. -/
structure GivenBack (start : Folder) (noted : List (FileName × Bytes))
    (open? : Option (FileName × Bytes)) (left : Folder) : Prop where
  sorted : left.Sorted
  claimable : ∀ file ∈ noted, isClaimable file.1 = true
  back : ∀ file ∈ noted, start.find? file.1 = some (.file file.2) ∧
    left.find? file.1 = some (.file file.2) ∧ left.find? (claimedName file.1) = none
  stuck : ∀ file, open? = some file → start.find? file.1 = some (.file file.2) ∧
    left.find? file.1 = none ∧ left.find? (claimedName file.1) = some (.file file.2)
  untouched : ∀ name, (∀ file ∈ noted, name ≠ claimedName file.1) →
    (∀ file, open? = some file → name ≠ file.1 ∧ name ≠ claimedName file.1) →
      left.find? name = start.find? name

/-- Giving back some of the claims of a folder. -/
theorem Taken.givenBack {open? : Option (FileName × Bytes)} {cleared left : Folder}
    (taken : Taken start (noted ++ open?.toList) folder) (remains : Taken cleared open?.toList left)
    (known : ∀ name, cleared.find? name =
      if name ∈ noted.map (fun file => claimedName file.1) then none else start.find? name) :
    GivenBack start noted open? left := by
  have claimable (file : FileName × Bytes) (member : file ∈ noted) : isClaimable file.1 = true :=
    taken.claimable file (List.mem_append_left _ member)
  have elsewhere (name : FileName)
      (apart : ∀ file ∈ open?.toList, name ≠ file.1 ∧ name ≠ claimedName file.1) :
      left.find? name =
        if name ∈ noted.map (fun file => claimedName file.1) then none else start.find? name :=
    (remains.others name apart).trans (known name)
  refine ⟨remains.sorted, claimable, ?_, ?_, ?_⟩
  · intro file member
    have there := taken.there file (List.mem_append_left _ member)
    have differs (other : FileName × Bytes) (last : other ∈ open?.toList) : file.1 ≠ other.1 := by
      have distinct := taken.distinct
      rw [List.map_append] at distinct
      exact (List.nodup_append.mp distinct).2.2 _ (List.mem_map_of_mem member) _
        (List.mem_map_of_mem last)
    have unnamed : file.1 ∉ noted.map fun file => claimedName file.1 := by
      intro inside
      obtain ⟨other, -, same⟩ := List.mem_map.mp inside
      exact ne_claimedName_of_isClaimable (claimable file member) other.1 same.symm
    refine ⟨there, ?_, ?_⟩
    · rw [elsewhere, if_neg unnamed, there]
      exact fun other last => ⟨differs other last,
        ne_claimedName_of_isClaimable (claimable file member) other.1⟩
    · rw [elsewhere, if_pos (List.mem_map_of_mem (f := fun file => claimedName file.1) member)]
      intro other last
      refine ⟨?_, fun same => differs other last (claimedName_injective same)⟩
      exact (ne_claimedName_of_isClaimable (remains.claimable other last) file.1).symm
  · rintro file rfl
    exact ⟨taken.there file (by simp), remains.gone file (by simp), remains.claimed file (by simp)⟩
  · intro name unclaimed apart
    rw [elsewhere, if_neg]
    · intro member
      obtain ⟨file, inside, same⟩ := List.mem_map.mp member
      exact unclaimed file inside same.symm
    · exact fun file last => apart file (Option.mem_toList.mp last)

/-- All is as it was exactly if no file kept the name of its claim, and no claim took a name that was in
use. -/
theorem GivenBack.eq_start_iff {open? : Option (FileName × Bytes)} {left : Folder}
    (h : GivenBack start noted open? left) (sorted : start.Sorted) :
    left = start ↔ open? = none ∧ ∀ file ∈ noted, start.contains (claimedName file.1) = false := by
  constructor
  · rintro rfl
    constructor
    · cases midway : open? with
      | none => rfl
      | some file =>
          obtain ⟨there, gone, -⟩ := h.stuck file midway
          rw [there] at gone
          cases gone
    · intro file member
      rw [contains, (h.back file member).2.2]
      rfl
  · rintro ⟨rfl, free⟩
    apply Sorted.ext h.sorted sorted
    intro name
    by_cases claim : ∃ file ∈ noted, name = claimedName file.1
    · obtain ⟨file, member, rfl⟩ := claim
      have missing : start.find? (claimedName file.1) = none := by
        simpa [contains] using free file member
      rw [(h.back file member).2.2, missing]
    · apply h.untouched
      · exact fun file member same => claim ⟨file, member, same⟩
      · rintro file ⟨⟩

/-- Wherever a poll is dropped, the claims that it has noted are given back. -/
theorem exists_givenBack (sorted : start.Sorted) (unclaimed : p.claimed = []) (steps : Nat) :
    ∃ noted, ∃ open? : Option (FileName × Bytes),
      (p.suspended start steps).1.items = p.itemsOf noted ∧
      (p.suspended start steps).1.unnoted? = open?.map Prod.fst ∧
      GivenBack start noted open? (p.dropped start steps) := by
  obtain ⟨noted, underway⟩ := Underway.suspended sorted unclaimed steps
  obtain ⟨holds, items, room, open?, unnoted, taken⟩ := underway.summary sorted
  have given : p.dropped start steps =
      (noted.map fun file => claimedName file.1).foldl p.releaseOne (p.suspended start steps).2.2 := by
    show ((p.suspended start steps).2.1.release _).2 = _
    rw [holds]
    rfl
  obtain ⟨cleared, remains, known⟩ := taken.release room
  rw [given]
  exact ⟨noted, open?, items, unnoted, taken.givenBack remains known⟩

/-- A poll may be dropped at any of its points, and then all noted claims are given back.  All files are
as they were exactly if no file has its new name without being noted, and no noted claim has replaced
what stood under its name.  In any case the files of the noted claims are back, a file that was renamed
and not noted stays under the name of its claim, and all other names stand for what they stood for.
Without an interruption the poll ends as a poll does that is never suspended. -/
theorem dropped_restores_iff (key directory : String) (limit : Nat)
    (content : List (FileName × FileEntry)) (steps : Nat) :
    let p := (create key directory).withLimit limit
    let start : Folder := .ofList content
    let progress := (p.suspended start steps).1
    let left := p.dropped start steps
    (left = start ↔ progress.unnoted? = none ∧
        ∀ item ∈ progress.items, start.contains (claimedName (nameOf item)) = false) ∧
      (∀ item ∈ progress.items, start.find? (nameOf item) = some (.file item.body) ∧
        left.find? (nameOf item) = some (.file item.body) ∧
        left.find? (claimedName (nameOf item)) = none) ∧
      (∀ name, progress.unnoted? = some name → ∃ body, start.find? name = some (.file body) ∧
        left.find? name = none ∧ left.find? (claimedName name) = some (.file body)) ∧
      (∀ name, (∀ item ∈ progress.items, name ≠ claimedName (nameOf item)) →
        (∀ other, progress.unnoted? = some other → name ≠ other ∧ name ≠ claimedName other) →
        left.find? name = start.find? name) ∧
      ∃ last, p.suspended start last = (.finished (p.poll start).1, (p.poll start).2) := by
  intro p start progress left
  have sorted : start.Sorted := sorted_ofList content
  obtain ⟨noted, open?, items, unnoted, given⟩ := exists_givenBack (p := p) sorted rfl steps
  have everyItem {P : Item → FileName → Prop} : (∀ item ∈ progress.items, P item (nameOf item)) ↔
      ∀ file ∈ noted, P (p.itemOf file.1 file.2) file.1 := by
    rw [show progress.items = p.itemsOf noted from items, itemsOf, List.forall_mem_map]
    refine forall₂_congr fun file member => ?_
    rw [nameOf_itemOf (isText_of_isClaimable (given.claimable file member))]
  have midway : progress.unnoted? = open?.map Prod.fst := unnoted
  refine ⟨?_, ?_, ?_, ?_, exists_suspended_eq_poll p start⟩
  · rw [midway, Option.map_eq_none_iff,
      everyItem (P := fun _ name => start.contains (claimedName name) = false)]
    exact given.eq_start_iff sorted
  · exact (everyItem (P := fun item name => start.find? name = some (.file item.body) ∧
      left.find? name = some (.file item.body) ∧
      left.find? (claimedName name) = none)).mpr given.back
  · intro name unnamed
    obtain ⟨file, there, rfl⟩ := Option.map_eq_some_iff.mp (midway.symm.trans unnamed)
    exact ⟨file.2, given.stuck file there⟩
  · intro name unclaimed apart
    rw [everyItem (P := fun _ other => name ≠ claimedName other)] at unclaimed
    refine given.untouched name unclaimed ?_
    intro file there
    exact apart file.1 (by rw [midway, there, Option.map_some])

/-- A poll that is dropped behind the renaming of a file, be it before or after the file was read, keeps
the file under the name of its claim; and a claim replaces a file that has this name already, which
giving back does not undo. -/
theorem dropped_behind_rename_keeps_claim :
    let name := FileName.ofText "a.json"
    let new := Utf8.bytesOf "new"
    let old := Utf8.bytesOf "old"
    let p := create "inbox" "/in"
    let one := Folder.ofFiles [(name, new)]
    let two := Folder.ofFiles [(name, new), (claimedName name, old)]
    (p.dropped one 2).keys = [claimedName name] ∧ (p.dropped one 3).keys = [claimedName name] ∧
      (p.dropped one 4).keys = [name] ∧
      two.keys = [name, claimedName name] ∧ two.bodies = [new, old] ∧
      (p.dropped two 4).keys = [name] ∧ (p.dropped two 4).bodies = [new] := by
  decide +kernel

end Pickup

end Intake
