/-
Module: Intake.Proofs.Pickup.Contest
Purpose: Pickups that poll one folder at the same time never share a file.
Main exports: Pickup.Turn, Pickup.turn_advance, Pickup.Contestant.Sound, Pickup.Contest.Sound,
  Pickup.Contest.sound_run, Pickup.Contest.Fair, Pickup.Contest.pickups_never_share_a_file

A poll tries the files that it has listed, and by then other pickups may have come first.  Only the renaming
decides: a file is there for the first pickup that renames it, and for no other.
-/
import Intake.Pickup.Contest
import Intake.Proofs.Lists
import Intake.Proofs.Pickup.Interruption

namespace Intake

namespace Pickup

open Table

variable {start folder after : Folder} {path : FilePath} {c next : Contestant} {known : List FileName}
  {name : FileName} {body : Bytes}

/-- The names that a poll has still to try. -/
@[simp] def Progress.left : Progress → List FileName
  | .renaming names _ => names
  | .reading _ names _ => names
  | .noting _ _ names _ => names
  | _ => []

/-- A file of a folder by its name. -/
def fileOf (start : Folder) (name : FileName) : FileName × Bytes :=
  (name, (start.bodyAt? name).getD [])

/-- A file that is there is the one of its name. -/
theorem fileOf_eq (there : start.find? name = some (.file body)) : fileOf start name = (name, body) := by
  rw [fileOf, Folder.bodyAt?_eq_some_iff.mpr there, Option.getD_some]

theorem map_fst_map_fileOf (start : Folder) (names : List FileName) :
    (names.map (fileOf start)).map Prod.fst = names := by
  rw [List.map_map]
  exact List.map_id names

/-- Noting a claim leaves the directory as the pickup spells it. -/
theorem path_insertClaim (p : Pickup) (claimed : FileName) : (p.insertClaim claimed).path = p.path := by
  rw [insertClaim]
  split
  · rfl
  · rfl

/-- So the items that it makes of files are the same as before. -/
theorem itemOf_insertClaim (p : Pickup) (claimed name : FileName) (body : Bytes) :
    (p.insertClaim claimed).itemOf name body = p.itemOf name body := by
  rw [insertClaim]
  split
  · rfl
  · rfl

/-! ### Turns

What a pickup does between two steps of the others is said once, by the cases of `Turn`.  Each of them says
what was found in the folder, so that no later proof has to look at the step again. -/

/-- All that one step of a pickup can do. -/
inductive Turn (folder : Folder) (c : Contestant) : Contestant → Folder → Prop where
  /-- A poll returns its items. -/
  | returned {items : List Item} (here : c.progress = .finished items) :
      Turn folder c { c with progress := .listing, returned := c.returned ++ items } folder
  | listed (here : c.progress = .listing) :
      Turn folder c { c with progress := .renaming (candidates c.pickup.limit folder) [] } folder
  | exhausted {items : List Item} (here : c.progress = .renaming [] items) :
      Turn folder c { c with progress := .finished items } folder
  | renamed {name : FileName} {names : List FileName} {items : List Item} {changed : Folder}
      (here : c.progress = .renaming (name :: names) items)
      (renamed : folder.rename c.pickup.path name (claimedName name) = .ok changed) :
      Turn folder c { c with progress := .reading name names items } changed
  /-- Another pickup came first. -/
  | vanished {name : FileName} {names : List FileName} {items : List Item}
      (here : c.progress = .renaming (name :: names) items)
      (gone : folder.rename c.pickup.path name (claimedName name) = .error .notFound) :
      Turn folder c { c with
        progress := .renaming names items, attempts := c.attempts ++ [(name, .vanished)] } folder
  | refused {name : FileName} {names : List FileName} {items : List Item} {cause : FileError}
      (here : c.progress = .renaming (name :: names) items) (found : cause ≠ .notFound)
      (refused : folder.rename c.pickup.path name (claimedName name) = .error cause) :
      Turn folder c { c with
        progress := .renaming names items, attempts := c.attempts ++ [(name, .failed cause)] } folder
  | read {name : FileName} {names : List FileName} {items : List Item} {body : Bytes}
      (here : c.progress = .reading name names items)
      (read : folder.read (claimedName name) = .ok body) :
      Turn folder c { c with progress := .noting name body names items } folder
  | unreadable {name : FileName} {names : List FileName} {items : List Item} {cause : FileError}
      (here : c.progress = .reading name names items)
      (unread : folder.read (claimedName name) = .error cause) :
      Turn folder c { c with
        progress := .renaming names items, attempts := c.attempts ++ [(name, .failed cause)] }
        (c.pickup.restore folder name)
  | noted {name : FileName} {body : Bytes} {names : List FileName} {items : List Item}
      (here : c.progress = .noting name body names items) :
      Turn folder c { c with
        pickup := c.pickup.insertClaim (claimedName name)
        progress := .renaming names (items ++ [c.pickup.itemOf name body])
        attempts := c.attempts ++ [(name, .claimed (c.pickup.itemOf name body))] } folder

/-- Every step of a pickup is one of these turns. -/
theorem turn_advance (c : Contestant) (folder : Folder) :
    Turn folder c (c.advance folder).1 (c.advance folder).2 := by
  obtain ⟨p, progress, returned, attempts⟩ := c
  match progress with
  | .finished items => exact .returned rfl
  | .listing =>
      simp only [Contestant.advance, step, attempt?, Option.toList_none, List.append_nil]
      exact .listed rfl
  | .renaming [] items =>
      simp only [Contestant.advance, step, attempt?, Option.toList_none, List.append_nil]
      exact .exhausted rfl
  | .renaming (name :: names) items =>
      cases renamed : folder.rename p.path name (claimedName name) with
      | ok changed =>
          simp only [Contestant.advance, step, attempt?, renamed, Option.toList_none,
            List.append_nil]
          exact .renamed rfl renamed
      | error cause =>
          simp only [Contestant.advance, step, attempt?, renamed]
          split
          · next same => cases same
          · next same =>
              cases same
              exact .vanished rfl renamed
          · next other found same =>
              cases same
              exact .refused rfl found renamed
  | .reading name names items =>
      cases read : folder.read (claimedName name) with
      | ok body =>
          simp only [Contestant.advance, step, attempt?, read, Option.toList_none, List.append_nil]
          exact .read rfl read
      | error cause =>
          simp only [Contestant.advance, step, attempt?, read]
          exact .unreadable rfl read
  | .noting name body names items => exact .noted rfl

/-! ### What is taken already

The files taken so far decide what a pickup finds.  One of them is gone from its place, and any other is there
as it was at the start, so that only a file taken by someone is ever missed. -/

namespace Taken

variable {files : List (FileName × Bytes)}

/-- What is still in its place was not taken. -/
theorem fresh_of_find? {entry : FileEntry} (h : Taken start files folder)
    (found : folder.find? name = some entry) : name ∉ files.map Prod.fst := by
  intro taken
  obtain ⟨file, inside, rfl⟩ := List.mem_map.mp taken
  rw [h.gone file inside] at found
  cases found

/-- Neither was what could just be renamed. -/
theorem fresh_of_rename {target : FileName} (h : Taken start files folder)
    (renamed : folder.rename path name target = .ok after) : name ∉ files.map Prod.fst := by
  obtain ⟨entry, found⟩ := Option.ne_none_iff_exists'.mp (Folder.find?_ne_none_of_rename renamed)
  exact h.fresh_of_find? found

/-- A file of the start that is missing was taken. -/
theorem mem_of_missing {entry : FileEntry} (h : Taken start files folder)
    (claimable : isClaimable name = true) (there : start.find? name = some entry)
    (missing : folder.find? name = none) : name ∈ files.map Prod.fst := by
  by_contra fresh
  rw [h.find?_of_fresh claimable fresh, there] at missing
  cases missing

/-- A file that a pickup is at is there, as its claim. -/
theorem of_unnoted (h : Taken start (known.map (fileOf start)) folder)
    (mine : ∀ name ∈ c.names, name ∈ known) (midway : c.progress.unnoted? = some name) :
    isClaimable name = true ∧ ∃ body, start.find? name = some (.file body) ∧
      folder.read (claimedName name) = .ok body := by
  have inside : name ∈ known := by
    apply mine
    rw [Contestant.names, midway]
    exact List.mem_append_right _ (List.mem_singleton_self name)
  have member : fileOf start name ∈ known.map (fileOf start) := List.mem_map_of_mem inside
  have claimed : folder.find? (claimedName name) = some (.file (fileOf start name).2) :=
    h.claimed _ member
  refine ⟨h.claimable _ member, _, h.there _ member, ?_⟩
  rw [Folder.read, claimed]

/-- A pickup lists files that nobody has taken. -/
theorem ahead_candidates {own : List (FileName × Bytes)} (h : Taken start files folder)
    (mine : ∀ file ∈ own, file ∈ files) (limit : Nat) :
    Ahead start own (candidates limit folder) where
  distinct := nodup_candidates h.sorted limit
  fresh := by
    intro name member taken
    obtain ⟨-, body, there⟩ := mem_candidates h.sorted member
    obtain ⟨file, inside, rfl⟩ := List.mem_map.mp taken
    rw [h.gone file (mine file inside)] at there
    cases there
  there := by
    intro name member
    obtain ⟨claimable, body, there⟩ := mem_candidates h.sorted member
    exact ⟨claimable, body, (h.find?_of_fresh claimable (h.fresh_of_find? there)).symm.trans there⟩

/-- Whether a file that nobody has taken can be renamed was settled at the start. -/
theorem rename_eq_error_iff {cause : FileError}
    (h : Taken start files folder) (claimable : isClaimable name = true)
    (fresh : name ∉ files.map Prod.fst) :
    folder.rename path name (claimedName name) = .error cause ↔
      start.rename path name (claimedName name) = .error cause := by
  have source := h.find?_of_fresh claimable fresh
  have target : folder.find? (claimedName name) = start.find? (claimedName name) := by
    apply h.others
    intro file member
    refine ⟨(ne_claimedName_of_isClaimable (h.claimable file member) name).symm, fun same => fresh ?_⟩
    rw [claimedName_injective same]
    exact List.mem_map_of_mem member
  rw [Folder.rename, Folder.rename, source, target]
  split
  · rfl
  · cases start.find? name with
    | none => rfl
    | some entry =>
      dsimp only
      split
      · rfl
      · rw [if_neg (ne_claimedName_of_isClaimable claimable name),
          if_neg (ne_claimedName_of_isClaimable claimable name)]
        cases Folder.mayReplace entry (start.find? (claimedName name)) <;> simp [Except.map]

/-- Why a file that is there cannot be renamed was settled at the start. -/
theorem refused_at_start {cause : FileError} (h : Taken start files folder)
    (claimable : isClaimable name = true) (found : cause ≠ .notFound)
    (refused : folder.rename path name (claimedName name) = .error cause) :
    start.rename path name (claimedName name) = .error cause := by
  cases long : (path.push name).isTooLong || (path.push (claimedName name)).isTooLong with
  | true =>
      rw [Folder.rename_eq_of_isTooLong folder long] at refused
      rw [Folder.rename_eq_of_isTooLong start long, refused]
  | false =>
      obtain ⟨here, there⟩ := Bool.or_eq_false_iff.mp long
      cases listed : folder.find? name with
      | none =>
          rw [(Folder.rename_eq_notFound_iff here there).mpr listed] at refused
          exact absurd (Except.error.inj refused).symm found
      | some entry => exact (h.rename_eq_error_iff claimable (h.fresh_of_find? listed)).mp refused

/-- A file that nobody had, and that is renamed now, could have been renamed from the start. -/
theorem renamable (h : Taken start files folder)
    (claimable : isClaimable name = true) (fresh : name ∉ files.map Prod.fst)
    (renamed : folder.rename path name (claimedName name) = .ok after) :
    ∃ changed, start.rename path name (claimedName name) = .ok changed := by
  cases early : start.rename path name (claimedName name) with
  | ok changed => exact ⟨changed, rfl⟩
  | error cause =>
      rw [(h.rename_eq_error_iff claimable fresh).mpr early] at renamed
      cases renamed

/-- The order in which files were taken does not matter. -/
theorem perm {files' : List (FileName × Bytes)} (h : Taken start files folder)
    (same : files.Perm files') : Taken start files' folder where
  sorted := h.sorted
  claimable := fun file member => h.claimable file (same.mem_iff.mpr member)
  distinct := (same.map Prod.fst).nodup_iff.mp h.distinct
  there := fun file member => h.there file (same.mem_iff.mpr member)
  claimed := fun file member => h.claimed file (same.mem_iff.mpr member)
  gone := fun file member => h.gone file (same.mem_iff.mpr member)
  others := fun name apart => h.others name fun file member => apart file (same.mem_iff.mp member)

end Taken

/-! ### One pickup

A pickup is followed through its own turns, with the files that all pickups have taken so far as the only
thing it needs to know of the others. -/

/-- What holds of a pickup among others: its claims and its items are those of its own files, which it could have
renamed from the start, it has still to try files of the start that it has not taken, and each of its attempts came to
what it had to. -/
structure Contestant.Sound (start : Folder) (c : Contestant) : Prop where
  claimed : c.pickup.claimed = (c.items.map nameOf).map claimedName
  own : ∀ item ∈ c.items, isClaimable (nameOf item) = true ∧
    ∃ body, start.find? (nameOf item) = some (.file body) ∧ item = c.pickup.itemOf (nameOf item) body
  midway : ∀ name body names items, c.progress = .noting name body names items →
    start.find? name = some (.file body)
  renamable : ∀ name ∈ c.names, ∃ changed, start.rename c.pickup.path name (claimedName name) = .ok changed
  ahead : Ahead start (c.names.map (fileOf start)) c.progress.left
  kept : c.items = c.attempts.filterMap (·.2.item?)
  called : ∀ name item, (name, .claimed item) ∈ c.attempts → nameOf item = name
  missed : ∀ name, (name, .vanished) ∈ c.attempts → name ∉ c.names
  refused : ∀ name cause, (name, .failed cause) ∈ c.attempts →
    start.rename c.pickup.path name (claimedName name) = .error cause

/-- A pickup that tries nothing more has nothing ahead of it. -/
theorem ahead_nil (files : List (FileName × Bytes)) : Ahead start files [] :=
  ⟨List.nodup_nil, by simp, by simp⟩

/-- What a step makes of the files that a pickup has taken: nothing, or one more that nobody had. -/
inductive Grown (path : FilePath) (start folder : Folder) (known names names' : List FileName) : Folder → Prop where
  | same (same : names' = names) : Grown path start folder known names names' folder
  | more {name : FileName} {body : Bytes} {after : Folder} (claimable : isClaimable name = true)
      (fresh : name ∉ known) (there : start.find? name = some (.file body))
      (renamed : folder.rename path name (claimedName name) = .ok after) (grown : names' = names ++ [name]) :
      Grown path start folder known names names' after

namespace Contestant.Sound

/-- What a pickup has still to try follows from how far its poll is. -/
theorem ahead_at {progress : Progress} (sound : c.Sound start) (here : c.progress = progress) :
    Ahead start (c.names.map (fileOf start)) progress.left := here ▸ sound.ahead

/-- The file that a poll tries next is one of the start. -/
theorem head {names : List FileName} {items : List Item} (sound : c.Sound start)
    (here : c.progress = .renaming (name :: names) items) :
    isClaimable name = true ∧ ∃ body, start.find? name = some (.file body) := by
  have ahead := sound.ahead_at here
  exact ahead.there name List.mem_cons_self

/-- A step that brings no attempt to its end, or one that did not succeed. -/
theorem carry {more : List (FileName × Attempt)} (sound : c.Sound start)
    (pickup : next.pickup = c.pickup) (items : next.items = c.items)
    (attempts : next.attempts = c.attempts ++ more) (noItem : ∀ x ∈ more, x.2.item? = none)
    (refused : ∀ name cause, (name, .failed cause) ∈ more →
      start.rename c.pickup.path name (claimedName name) = .error cause)
    (renamable : ∀ name ∈ next.names,
      ∃ changed, start.rename c.pickup.path name (claimedName name) = .ok changed)
    (missed : ∀ name, (name, .vanished) ∈ next.attempts → name ∉ next.names)
    (midway : ∀ name body names items, next.progress = .noting name body names items →
      start.find? name = some (.file body))
    (ahead : Ahead start (next.names.map (fileOf start)) next.progress.left) : next.Sound start where
  claimed := by rw [pickup, items, sound.claimed]
  own := by
    rw [pickup, items]
    exact sound.own
  midway := midway
  renamable := by
    rw [pickup]
    exact renamable
  ahead := ahead
  kept := by
    rw [items, attempts, List.filterMap_append, List.filterMap_eq_nil_iff.mpr noItem, List.append_nil]
    exact sound.kept
  called := by
    intro name item member
    rw [attempts] at member
    rcases List.mem_append.mp member with old | new
    · exact sound.called name item old
    · exact nomatch noItem _ new
  missed := missed
  refused := by
    intro name cause member
    rw [attempts] at member
    rw [pickup]
    rcases List.mem_append.mp member with old | new
    · exact sound.refused name cause old
    · exact refused name cause new

/-- The step that notes a claim. -/
theorem note {names : List FileName} {items : List Item} (sound : c.Sound start)
    (here : c.progress = .noting name body names items) (claimable : isClaimable name = true)
    (once : c.names.Nodup) (pickup : next.pickup = c.pickup.insertClaim (claimedName name))
    (grown : next.items = c.items ++ [c.pickup.itemOf name body])
    (attempts : next.attempts = c.attempts ++ [(name, .claimed (c.pickup.itemOf name body))])
    (renamable : ∀ name ∈ next.names,
      ∃ changed, start.rename c.pickup.path name (claimedName name) = .ok changed)
    (missed : ∀ name, (name, .vanished) ∈ next.attempts → name ∉ next.names)
    (midway : ∀ name body names items, next.progress = .noting name body names items →
      start.find? name = some (.file body))
    (ahead : Ahead start (next.names.map (fileOf start)) next.progress.left) : next.Sound start where
  claimed := by
    have fresh : claimedName name ∉ c.pickup.claimed := by
      rw [Contestant.names, here, Progress.unnoted?, Option.toList_some] at once
      rw [sound.claimed]
      intro inside
      obtain ⟨other, member, same⟩ := List.mem_map.mp inside
      obtain rfl : other = name := claimedName_injective same
      exact (List.nodup_append.mp once).2.2 other member other (List.mem_singleton_self other) rfl
    rw [pickup, insertClaim, if_neg fresh, grown, List.map_append, List.map_append, ← sound.claimed,
      List.map_singleton, nameOf_itemOf (isText_of_isClaimable claimable), List.map_singleton]
  own := by
    intro item member
    simp only [pickup, itemOf_insertClaim]
    rw [grown] at member
    rcases List.mem_append.mp member with old | new
    · exact sound.own item old
    · obtain rfl := List.mem_singleton.mp new
      rw [nameOf_itemOf (isText_of_isClaimable claimable)]
      exact ⟨claimable, body, sound.midway name body names items here, rfl⟩
  midway := midway
  renamable := by
    rw [pickup, path_insertClaim]
    exact renamable
  ahead := ahead
  kept := by
    rw [grown, attempts, sound.kept, List.filterMap_append]
    rfl
  called := by
    intro other item member
    rw [attempts] at member
    rcases List.mem_append.mp member with old | new
    · exact sound.called other item old
    · obtain ⟨rfl, rfl⟩ : other = name ∧ item = c.pickup.itemOf name body := by simpa using new
      exact nameOf_itemOf (isText_of_isClaimable claimable)
  missed := missed
  refused := by
    intro other cause member
    rw [attempts] at member
    rw [pickup, path_insertClaim]
    exact sound.refused other cause (by simpa using member)

end Contestant.Sound

namespace Turn

/-- A pickup takes a file by renaming it, and only then. -/
theorem grown (turn : Turn folder c next after) (sound : c.Sound start)
    (taken : Taken start (known.map (fileOf start)) folder) (mine : ∀ name ∈ c.names, name ∈ known) :
    Grown c.pickup.path start folder known c.names next.names after := by
  cases turn with
  | returned here => exact .same (by simp [Contestant.names, Contestant.items, here])
  | listed here => exact .same (by simp [Contestant.names, Contestant.items, here])
  | exhausted here => exact .same (by simp [Contestant.names, Contestant.items, here])
  | renamed here renamed =>
      obtain ⟨claimable, body, there⟩ := sound.head here
      have fresh := taken.fresh_of_rename renamed
      rw [map_fst_map_fileOf] at fresh
      exact .more claimable fresh there renamed (by simp [Contestant.names, Contestant.items, here])
  | vanished here => exact .same (by simp [Contestant.names, Contestant.items, here])
  | refused here => exact .same (by simp [Contestant.names, Contestant.items, here])
  | read here => exact .same (by simp [Contestant.names, Contestant.items, here])
  | unreadable here unread =>
      -- The file is there: nobody else renames a file that was renamed.
      obtain ⟨-, body, -, read⟩ := taken.of_unnoted mine (by rw [here, Progress.unnoted?])
      rw [read] at unread
      cases unread
  | @noted name body _ _ here =>
      obtain ⟨claimable, -⟩ := taken.of_unnoted mine (by rw [here, Progress.unnoted?])
      have called : nameOf (c.pickup.itemOf name body) = name :=
        nameOf_itemOf (isText_of_isClaimable claimable)
      exact .same (by simp [Contestant.names, Contestant.items, here, called])

/-- Who finds a file vanished does not have it, and someone has. -/
theorem vanished_mem (turn : Turn folder c next after) (sound : c.Sound start)
    (taken : Taken start (known.map (fileOf start)) folder)
    (won : ∀ name, (name, .vanished) ∈ c.attempts → name ∈ known) (name : FileName)
    (missed : (name, .vanished) ∈ next.attempts) : name ∈ known ∧ name ∉ c.names := by
  have old (member : (name, .vanished) ∈ c.attempts) : name ∈ known ∧ name ∉ c.names :=
    ⟨won name member, sound.missed name member⟩
  cases turn with
  | returned => exact old missed
  | listed => exact old missed
  | exhausted => exact old missed
  | renamed => exact old missed
  | @vanished other _ _ here gone =>
      rcases List.mem_append.mp missed with before | now
      · exact old before
      · obtain rfl : name = other := by simpa using now
        obtain ⟨claimable, body, there⟩ := sound.head here
        have inside := taken.mem_of_missing claimable there (Folder.find?_eq_none_of_rename gone)
        have fresh := (sound.ahead_at here).fresh name List.mem_cons_self
        rw [map_fst_map_fileOf] at inside fresh
        exact ⟨inside, fresh⟩
  | refused => exact old (by simpa using missed)
  | read => exact old missed
  | unreadable => exact old (by simpa using missed)
  | noted => exact old (by simpa using missed)

/-- A file that vanished before a pickup could rename it is never one of its own. -/
theorem missed_next (turn : Turn folder c next after) (sound : c.Sound start)
    (taken : Taken start (known.map (fileOf start)) folder) (mine : ∀ name ∈ c.names, name ∈ known)
    (won : ∀ name, (name, .vanished) ∈ c.attempts → name ∈ known) :
    ∀ name, (name, .vanished) ∈ next.attempts → name ∉ next.names := by
  intro name missed
  obtain ⟨inside, fresh⟩ := turn.vanished_mem sound taken won name missed
  cases turn.grown sound taken mine with
  | same same =>
      rw [same]
      exact fresh
  | more _ new _ _ grown =>
      rw [grown, List.mem_append, List.mem_singleton, not_or]
      exact ⟨fresh, fun same => new (same ▸ inside)⟩

/-- Each file that a pickup has taken could have been renamed from the start. -/
theorem renamable_next (turn : Turn folder c next after) (sound : c.Sound start)
    (taken : Taken start (known.map (fileOf start)) folder) (mine : ∀ name ∈ c.names, name ∈ known) :
    ∀ name ∈ next.names, ∃ changed, start.rename c.pickup.path name (claimedName name) = .ok changed := by
  cases turn.grown sound taken mine with
  | same same =>
      rw [same]
      exact sound.renamable
  | more claimable fresh _ renamed grown =>
      rw [grown]
      refine List.forall_mem_append.mpr ⟨sound.renamable, List.forall_mem_singleton.mpr ?_⟩
      exact taken.renamable claimable (by rwa [map_fst_map_fileOf]) renamed

/-- What a pickup has still to try stays ahead of it. -/
theorem ahead_next (turn : Turn folder c next after) (sound : c.Sound start)
    (taken : Taken start (known.map (fileOf start)) folder) (mine : ∀ name ∈ c.names, name ∈ known) :
    Ahead start (next.names.map (fileOf start)) next.progress.left := by
  cases turn with
  | returned => exact ahead_nil _
  | listed here =>
      have own : ∀ file ∈ c.names.map (fileOf start), file ∈ known.map (fileOf start) := by
        intro file member
        obtain ⟨name, inside, rfl⟩ := List.mem_map.mp member
        exact List.mem_map_of_mem (mine name inside)
      have ahead := taken.ahead_candidates own c.pickup.limit
      simpa [Contestant.names, Contestant.items, here] using ahead
  | exhausted => exact ahead_nil _
  | renamed here =>
      obtain ⟨-, body, there⟩ := sound.head here
      have ahead := (sound.ahead_at here).taken body
      rw [← fileOf_eq there] at ahead
      simpa [Contestant.names, Contestant.items, here] using ahead
  | vanished here =>
      simpa [Contestant.names, Contestant.items, here] using (sound.ahead_at here).tail
  | refused here =>
      simpa [Contestant.names, Contestant.items, here] using (sound.ahead_at here).tail
  | read here => simpa [Contestant.names, Contestant.items, here] using sound.ahead_at here
  | unreadable here unread =>
      obtain ⟨-, body, -, read⟩ := taken.of_unnoted mine (by rw [here, Progress.unnoted?])
      rw [read] at unread
      cases unread
  | @noted name body _ _ here =>
      obtain ⟨claimable, -⟩ := taken.of_unnoted mine (by rw [here, Progress.unnoted?])
      have called : nameOf (c.pickup.itemOf name body) = name :=
        nameOf_itemOf (isText_of_isClaimable claimable)
      simpa [Contestant.names, Contestant.items, here, called] using sound.ahead_at here

/-- A pickup stays sound, whatever its step comes to. -/
theorem sound_next (turn : Turn folder c next after) (sound : c.Sound start)
    (taken : Taken start (known.map (fileOf start)) folder) (mine : ∀ name ∈ c.names, name ∈ known)
    (once : c.names.Nodup) (won : ∀ name, (name, .vanished) ∈ c.attempts → name ∈ known) :
    next.Sound start := by
  have missed := turn.missed_next sound taken mine won
  have ahead := turn.ahead_next sound taken mine
  have renamable := turn.renamable_next sound taken mine
  cases turn with
  | returned here =>
      refine sound.carry rfl ?_ (List.append_nil _).symm (by simp) (by simp) renamable missed (by simp) ahead
      simp [Contestant.items, here]
  | listed here =>
      refine sound.carry rfl ?_ (List.append_nil _).symm (by simp) (by simp) renamable missed (by simp) ahead
      simp [Contestant.items, here]
  | exhausted here =>
      refine sound.carry rfl ?_ (List.append_nil _).symm (by simp) (by simp) renamable missed (by simp) ahead
      simp [Contestant.items, here]
  | renamed here =>
      refine sound.carry rfl ?_ (List.append_nil _).symm (by simp) (by simp) renamable missed (by simp) ahead
      simp [Contestant.items, here]
  | vanished here =>
      refine sound.carry rfl ?_ rfl (by simp) (by simp) renamable missed (by simp) ahead
      simp [Contestant.items, here]
  | @refused name _ _ cause here found refused =>
      have settled : start.rename c.pickup.path name (claimedName name) = .error cause :=
        taken.refused_at_start (sound.head here).1 found refused
      refine sound.carry rfl ?_ rfl (by simp) (by simp [settled]) renamable missed (by simp) ahead
      simp [Contestant.items, here]
  | @read name _ _ body here read =>
      refine sound.carry rfl ?_ (List.append_nil _).symm (by simp) (by simp) renamable missed ?_ ahead
      · simp [Contestant.items, here]
      · obtain ⟨-, body', there, same⟩ := taken.of_unnoted mine (by rw [here, Progress.unnoted?])
        obtain rfl : body' = body := Except.ok.inj (same.symm.trans read)
        rintro _ _ _ _ ⟨⟩
        exact there
  | unreadable here unread =>
      obtain ⟨-, body, -, read⟩ := taken.of_unnoted mine (by rw [here, Progress.unnoted?])
      rw [read] at unread
      cases unread
  | noted here =>
      obtain ⟨claimable, -⟩ := taken.of_unnoted mine (by rw [here, Progress.unnoted?])
      refine sound.note here claimable once rfl ?_ rfl renamable missed (by simp) ahead
      simp [Contestant.items, here]

end Turn

/-! ### All pickups

The names taken by all pickups are put together.  A turn adds at most one name, one that nobody had, so they
stay distinct whoever moves. -/

/-- What holds whoever takes the next step: every pickup is sound, the folder is the start with all their
files claimed, and only these are gone. -/
structure Contest.Sound (start : Folder) (c : Contest) : Prop where
  each : ∀ x ∈ c.contestants, x.Sound start
  taken : Taken start (c.names.map (fileOf start)) c.folder
  won : ∀ x ∈ c.contestants, ∀ name, (name, .vanished) ∈ x.attempts → name ∈ c.names

/-- One pickup has one more file; the others have what they had. -/
theorem Grown.taken {names names' l r : List FileName}
    (grown : Grown path start folder (l ++ (names ++ r)) names names' after)
    (taken : Taken start ((l ++ (names ++ r)).map (fileOf start)) folder) :
    Taken start ((l ++ (names' ++ r)).map (fileOf start)) after ∧
      ∀ name ∈ l ++ (names ++ r), name ∈ l ++ (names' ++ r) := by
  cases grown with
  | same same =>
      rw [same]
      exact ⟨taken, fun _ member => member⟩
  | @more name body _ claimable fresh there renamed grown =>
      have moved : ((l ++ (names ++ r)) ++ [name]).Perm (l ++ (names' ++ r)) := by
        rw [grown, List.append_assoc, List.append_assoc, List.append_assoc]
        exact (List.perm_append_comm.append_left names).append_left l
      have fresh' : name ∉ ((l ++ (names ++ r)).map (fileOf start)).map Prod.fst := by
        rwa [map_fst_map_fileOf]
      have more := taken.rename claimable fresh' there renamed
      rw [← fileOf_eq there, ← List.map_singleton (f := fileOf start), ← List.map_append] at more
      exact ⟨more.perm (moved.map _), fun other member => moved.mem_iff.mp (List.mem_append_left _ member)⟩

namespace Contest

variable {contest : Contest} {pickups : List Pickup}

/-- No file is taken twice. -/
theorem nodup_names (h : contest.Sound start) : contest.names.Nodup := by
  have distinct := h.taken.distinct
  rwa [map_fst_map_fileOf] at distinct

/-- Before the first step nothing is taken. -/
theorem sound_start (sorted : start.Sorted) (unclaimed : ∀ p ∈ pickups, p.claimed = []) :
    (Contest.start start pickups).Sound start := by
  have names : (Contest.start start pickups).names = [] := by
    simp [Contest.names, Contest.start, Contestant.names, Contestant.enter, Contestant.items,
      Progress.items, Progress.unnoted?]
  refine ⟨?_, ?_, ?_⟩
  · intro x member
    obtain ⟨p, inside, rfl⟩ := List.mem_map.mp member
    refine ⟨unclaimed p inside, ?_, ?_, ?_, ahead_nil _, rfl, ?_, ?_, ?_⟩
    · exact fun _ none => absurd none List.not_mem_nil
    · exact fun _ _ _ _ other => by cases other
    · exact fun _ none => absurd none List.not_mem_nil
    · exact fun _ _ none => absurd none List.not_mem_nil
    · exact fun _ none => absurd none List.not_mem_nil
    · exact fun _ _ none => absurd none List.not_mem_nil
  · rw [names]
    exact taken_nil sorted
  · intro x member
    obtain ⟨p, inside, rfl⟩ := List.mem_map.mp member
    exact fun _ none => absurd none List.not_mem_nil

/-- Every step keeps it. -/
theorem sound_advance (h : contest.Sound start) (place : Nat) : (contest.advance place).Sound start := by
  rw [advance]
  cases here : contest.contestants[place]? with
  | none => exact h
  | some x =>
      obtain ⟨l, r, whole, changed⟩ := Lists.exists_split here
      have member : x ∈ contest.contestants := List.mem_of_getElem? here
      have known : contest.names =
          l.flatMap Contestant.names ++ (x.names ++ r.flatMap Contestant.names) := by
        rw [names, whole, List.flatMap_append, List.flatMap_cons]
      have mine : ∀ name ∈ x.names, name ∈ contest.names := fun name inside =>
        List.mem_flatMap_of_mem member inside
      have once : x.names.Nodup := (List.nodup_flatMap.mp (nodup_names h)).1 x member
      obtain ⟨⟨next, after⟩, result⟩ : ∃ result, x.advance contest.folder = result := ⟨_, rfl⟩
      have turn := turn_advance x contest.folder
      rw [result] at turn
      have grown := turn.grown (h.each x member) h.taken mine
      have sound := turn.sound_next (h.each x member) h.taken mine once (h.won x member)
      have others (y : Contestant) (inside : y ∈ l ++ next :: r) :
          y = next ∨ y ∈ contest.contestants := by
        rw [whole]
        simp only [List.mem_append, List.mem_cons] at inside ⊢
        tauto
      have later : Contest.names ⟨after, l ++ next :: r⟩ =
          l.flatMap Contestant.names ++ (next.names ++ r.flatMap Contestant.names) := by
        rw [names, List.flatMap_append, List.flatMap_cons]
      have missed := turn.vanished_mem (h.each x member) h.taken (h.won x member)
      have taken := h.taken
      have won := h.won
      rw [known] at grown taken won missed
      obtain ⟨taken, spread⟩ := grown.taken taken
      simp only [result, changed]
      refine ⟨?_, ?_, ?_⟩
      · intro y inside
        rcases others y inside with rfl | old
        · exact sound
        · exact h.each y old
      · rw [later]
        exact taken
      · rw [later]
        intro y inside name vanished
        rcases others y inside with rfl | old
        · exact spread name (missed name vanished).1
        · exact spread name (won y old name vanished)

/-- So does every interleaving. -/
theorem sound_run (h : contest.Sound start) (places : List Nat) : (contest.run places).Sound start := by
  induction places generalizing contest with
  | nil => exact h
  | cons place places ih => exact ih (sound_advance h place)

/-! ### Fairness

What every pickup keeps, read as what its callers see: the items of all pickups are of different files, and
whoever came too late was told nothing but that the file was gone. -/

/-- Nobody shares a file. -/
structure Fair (start : Folder) (c : Contest) : Prop where
  /-- No file is returned twice, be it by two pickups or by two polls of one. -/
  once : ((c.contestants.flatMap Contestant.items).map nameOf).Nodup
  /-- Each item is that of a file of the start, with its name and its content. -/
  own : ∀ x ∈ c.contestants, ∀ item ∈ x.items, isClaimable (nameOf item) = true ∧
    ∃ body, start.find? (nameOf item) = some (.file body) ∧ item = x.pickup.itemOf (nameOf item) body
  /-- Only attempts that claimed a file bring items. -/
  gained : ∀ x ∈ c.contestants, x.items = x.attempts.filterMap (·.2.item?)
  /-- Who tries a file that another pickup has taken gets neither an item nor a failure.  The one exception is a
  pickup that spells the directory in another way, which leaves no room for a claim: it could not have claimed the file
  at any time. -/
  lost : ∀ (one other : Nat) x y, c.contestants[one]? = some x → c.contestants[other]? = some y →
    one ≠ other → ∀ name ∈ y.names, ∀ attempt, (name, attempt) ∈ x.attempts →
    attempt = .vanished ∨ (x.pickup.directory ≠ y.pickup.directory ∧
      x.pickup.path.hasRoom (claimedName name) = false ∧ attempt = .failed .nameTooLong)
  /-- A file vanishes only because another pickup has taken it. -/
  won : ∀ x ∈ c.contestants, ∀ name, (name, .vanished) ∈ x.attempts →
    name ∉ x.names ∧ ∃ y ∈ c.contestants, name ∈ y.names
  /-- The claims of a pickup are those of its items. -/
  claimed : ∀ x ∈ c.contestants, x.pickup.claimed = x.items.map fun item => claimedName (nameOf item)
  /-- No claim is held by two pickups. -/
  apart : c.contestants.Pairwise fun x y => x.pickup.claimed.Disjoint y.pickup.claimed

/-- What is kept at every step makes a contest fair. -/
theorem Sound.fair (h : contest.Sound start) : contest.Fair start where
  once := by
    obtain ⟨each, apart⟩ := List.nodup_flatMap.mp (nodup_names h)
    rw [List.map_flatMap, List.nodup_flatMap]
    refine ⟨fun x member => (List.nodup_append.mp (each x member)).1, apart.imp ?_⟩
    intro x y apart name inside there
    exact apart (List.mem_append_left _ inside) (List.mem_append_left _ there)
  own := fun x member => (h.each x member).own
  gained := fun x member => (h.each x member).kept
  lost := by
    intro one other x y first second differs name taken attempt tried
    have sound := h.each x (List.mem_of_getElem? first)
    cases attempt with
    | vanished => exact .inl rfl
    | failed cause =>
        obtain ⟨changed, renamed⟩ := (h.each y (List.mem_of_getElem? second)).renamable name taken
        obtain ⟨unlike, full, rfl⟩ := Folder.refused_of_rename_ok (sound.refused name cause tried) renamed
          (length_lt_claimedName name).le
        exact .inr ⟨fun same => unlike (congrArg Utf8.bytesOf same), full, rfl⟩
    | claimed item =>
        have gained : item ∈ x.items := by
          rw [sound.kept]
          exact List.mem_filterMap.mpr ⟨_, tried, rfl⟩
        have mine : name ∈ x.names := by
          rw [← sound.called name item tried]
          exact List.mem_append_left _ (List.mem_map_of_mem gained)
        exact absurd taken (Lists.disjoint_of_nodup_flatMap (nodup_names h) first second differs mine)
  won := by
    intro x member name vanished
    exact ⟨(h.each x member).missed name vanished, List.mem_flatMap.mp (h.won x member name vanished)⟩
  claimed := by
    intro x member
    rw [(h.each x member).claimed, List.map_map]
    rfl
  apart := by
    obtain ⟨-, apart⟩ := List.nodup_flatMap.mp (nodup_names h)
    refine apart.imp_of_mem ?_
    intro x y here there apart claim inside other
    rw [(h.each x here).claimed] at inside
    rw [(h.each y there).claimed] at other
    obtain ⟨name, mine, rfl⟩ := List.mem_map.mp inside
    obtain ⟨name', yours, same⟩ := List.mem_map.mp other
    obtain rfl : name' = name := claimedName_injective same
    exact apart (List.mem_append_left _ mine) (List.mem_append_left _ yours)

/-- Any number of pickups may poll a folder, whatever their keys and limits and whatever is in it.  However
their steps are interleaved, no file is returned twice, each item is made of its own file, and who comes too
late for a file gets neither an item nor a failure, as long as all of them spell the directory alike. -/
theorem pickups_never_share_a_file (entrants : List (String × String × Nat))
    (content : List (FileName × FileEntry)) (places : List Nat) :
    let start : Folder := .ofList content
    let pickups := entrants.map fun (key, directory, limit) => (create key directory).withLimit limit
    ((Contest.start start pickups).run places).Fair start := by
  intro start pickups
  have sorted : start.Sorted := sorted_ofList content
  have unclaimed : ∀ p ∈ pickups, p.claimed = [] := by
    intro p member
    obtain ⟨entrant, -, rfl⟩ := List.mem_map.mp member
    rfl
  exact (sound_run (sound_start sorted unclaimed) places).fair

end Contest

end Pickup

end Intake
