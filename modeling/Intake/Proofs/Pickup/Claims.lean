/-
Module: Intake.Proofs.Pickup.Claims
Purpose: What the operations of a pickup do when it holds some files of a folder.
Main exports: Pickup.holding, Pickup.itemsOf, Pickup.Holds, Pickup.candidates_eq,
  Pickup.nameOf_itemOf, Pickup.Holds.claim_eq, Pickup.Holds.finish_eq_of_processed,
  Pickup.Holds.finish_eq_of_failed, Pickup.Holds.poll_eq

A poll is a row of claims.  What each of them keeps is kept by the poll, whatever it is: the ledger of a session, or
which files are taken from a folder and which are left.
-/
import Mathlib.Data.List.Nodup
import Intake.Proofs.Files.Bodies
import Intake.Proofs.Pickup.Names

namespace Intake

namespace Pickup

open Table

variable {p : Pickup} {folder : Folder} {held : List (FileName × Bytes)} {file : FileName × Bytes}
  {name : FileName} {body : Bytes}

/-- The pickup with the claims of some files, and no other. -/
def holding (p : Pickup) (held : List (FileName × Bytes)) : Pickup :=
  { p with claimed := held.map fun file => claimedName file.1 }

/-- The items of some files. -/
def itemsOf (p : Pickup) (files : List (FileName × Bytes)) : List Item :=
  files.map fun file => p.itemOf file.1 file.2

/-- There are the claimed files in a folder, each with its content, and no two of one name.  Each of them could be
claimed, since there was room for the ending. -/
structure Holds (p : Pickup) (folder : Folder) (held : List (FileName × Bytes)) : Prop where
  plain : folder.Plain
  claimable : ∀ file ∈ held, isClaimable file.1 = true
  distinct : (held.map Prod.fst).Nodup
  room : ∀ file ∈ held, p.leavesRoom file = true
  kept : ∀ file ∈ held, folder.find? (claimedName file.1) = some (.file file.2)

/-! ### Candidates

A poll looks at the regular files of its directory, in the order of their names, and at those only that are
neither hidden nor endings of its own. -/

/-- The candidates are the files under names that can be claimed, with their contents. -/
theorem mem_claimableFiles (sorted : folder.Sorted) :
    (name, body) ∈ claimableFiles folder ↔
      isClaimable name = true ∧ folder.find? name = some (.file body) := by
  rw [claimableFiles, List.mem_filterMap, sorted.find?_eq_some_iff]
  constructor
  · rintro ⟨⟨other, entry⟩, inside, found⟩
    dsimp only at found
    split at found
    · next claimable =>
        cases entry with
        | file content =>
            cases found
            exact ⟨claimable, inside⟩
        | link target => cases found
        | folder inner => cases found
    · cases found
  · rintro ⟨claimable, inside⟩
    exact ⟨(name, .file body), inside, by simp [claimable, FileEntry.body?]⟩

/-- They stand in the strict order of their names. -/
theorem pairwise_claimableFiles (sorted : folder.Sorted) :
    (claimableFiles folder).Pairwise fun a b => a.1 < b.1 := by
  refine List.Pairwise.filterMap _ ?_ sorted
  -- A file is listed under its own name.
  have own (entry : FileName × FileEntry) (listed : FileName × Bytes)
      (found : listed ∈ if isClaimable entry.1 then entry.2.body?.map fun body => (entry.1, body) else none) :
      listed.1 = entry.1 := by
    split at found
    · obtain ⟨body, -, rfl⟩ := Option.map_eq_some_iff.mp found
      rfl
    · cases found
  intro a b less x first y second
  rw [own a x first, own b y second]
  exact less

/-- None of them is listed twice. -/
theorem nodup_claimableFiles (sorted : folder.Sorted) : ((claimableFiles folder).map Prod.fst).Nodup := by
  rw [List.Nodup, List.pairwise_map]
  refine (pairwise_claimableFiles sorted).imp ?_
  intro a b less same
  rw [same] at less
  exact Std.Irrefl.irrefl _ less

/-- Their names are those that a listing of the folder leaves. -/
theorem map_fst_claimableFiles (folder : Folder) :
    (claimableFiles folder).map Prod.fst =
      (folder.entries.filter fun (name, entry) => entry.isFile && isClaimable name).map Prod.fst := by
  obtain ⟨entries⟩ := folder
  show (entries.filterMap _).map Prod.fst = _
  induction entries with
  | nil => rfl
  | cons first rest ih =>
      obtain ⟨name, entry⟩ := first
      cases claimable : isClaimable name with
      | false => simpa [claimable] using ih
      | true =>
          cases entry with
          | file body => simpa [claimable, FileEntry.body?, FileEntry.isFile] using ih
          | link target => simpa [claimable, FileEntry.body?, FileEntry.isFile] using ih
          | folder inner => simpa [claimable, FileEntry.body?, FileEntry.isFile] using ih

/-- A poll tries to claim the first of them; sorting changes nothing. -/
theorem candidates_eq (sorted : folder.Sorted) (limit : Nat) :
    candidates limit folder = ((claimableFiles folder).take limit).map Prod.fst := by
  have ordered : ((claimableFiles folder).map Prod.fst).Pairwise fun a b => precedes a b = true := by
    rw [List.pairwise_map]
    exact (pairwise_claimableFiles sorted).imp fun less => decide_eq_true (List.le_of_lt less)
  rw [candidates, ← map_fst_claimableFiles, List.mergeSort_of_pairwise ordered, List.map_take]

/-- No file is tried twice in one poll. -/
theorem nodup_candidates (sorted : folder.Sorted) (limit : Nat) : (candidates limit folder).Nodup := by
  rw [candidates_eq sorted]
  exact (nodup_claimableFiles sorted).sublist ((List.take_sublist limit _).map Prod.fst)

/-- Whatever a poll tries is a file that was there when it listed the folder. -/
theorem mem_candidates (sorted : folder.Sorted) {limit : Nat} (member : name ∈ candidates limit folder) :
    isClaimable name = true ∧ ∃ body, folder.find? name = some (.file body) := by
  rw [candidates_eq sorted] at member
  obtain ⟨⟨name, body⟩, taken, rfl⟩ := List.mem_map.mp member
  obtain ⟨claimable, found⟩ := (mem_claimableFiles sorted).mp (List.mem_of_mem_take taken)
  exact ⟨claimable, body, found⟩

/-! ### Items and their files

An item carries the path under which its file was found.  From this path, the pickup knows the file again when
the item is finished. -/

/-- A name that is a text is kept by the path of its item, byte for byte. -/
theorem bytesOf_pathOf (text : name.IsText) : Utf8.bytesOf (p.pathOf name) = p.filePath name := by
  obtain ⟨s, rfl⟩ := text
  have spelled : ∃ whole, p.filePath (FileName.ofText s) = Utf8.bytesOf whole := by
    rw [filePath, FilePath.push]
    split
    · exact ⟨p.directory ++ s, (FileName.ofText_append p.directory s).symm⟩
    · refine ⟨p.directory ++ ("/" ++ s), ?_⟩
      exact ((FileName.ofText_append p.directory _).trans (congrArg _ (FileName.ofText_append "/" s))).symm
  obtain ⟨whole, same⟩ := spelled
  rw [pathOf, same, Utf8.decodeLossy_bytesOf]

/-- The item of a file tells its name. -/
theorem nameOf_itemOf (h : name.IsText) : nameOf (p.itemOf name body) = name := by
  have found : (p.itemOf name body).properties.find? nameProperty = some name.shown := by
    rw [itemOf, find?_put, find?_put, if_neg (by decide), if_pos rfl]
  rw [nameOf, found]
  exact FileName.ofText_shown h

/-- An item says where its file is while it is claimed. -/
theorem itemPath?_itemOf (p : Pickup) (text : name.IsText) (body : Bytes) :
    itemPath? (p.itemOf name body) = some (p.filePath (claimedName name)) := by
  rw [itemPath?, itemOf, find?_put, if_pos rfl, Option.map_some, bytesOf_pathOf (isText_claimedName text)]

/-- The items of files tell the names of the files in turn. -/
theorem map_nameOf_itemsOf {files : List (FileName × Bytes)}
    (h : ∀ file ∈ files, isClaimable file.1 = true) :
    (p.itemsOf files).map nameOf = files.map Prod.fst := by
  rw [itemsOf, List.map_map]
  apply List.map_congr_left
  intro file member
  exact nameOf_itemOf (isText_of_isClaimable (h file member))

/-- The items of files have their contents. -/
theorem map_body_itemsOf (files : List (FileName × Bytes)) :
    (p.itemsOf files).map Item.body = files.map Prod.snd := by
  rw [itemsOf, List.map_map]
  rfl

/-- Files that are claimed have different paths. -/
theorem route_filePath_injective {other : FileName} (one : isClaimable name = true)
    (two : isClaimable other = true)
    (same : FilePath.route (p.filePath (claimedName name)) = FilePath.route (p.filePath (claimedName other))) :
    name = other := by
  rw [filePath, filePath, FilePath.route_push _ (leadsOn_claimedName name) (slash_notMem_claimedName one),
    FilePath.route_push _ (leadsOn_claimedName other) (slash_notMem_claimedName two)] at same
  injection same with _ names
  exact claimedName_injective (List.singleton_inj.mp (List.append_inj' names rfl).2)

/-- Where there is room for a claim, there is room for the file's own name. -/
theorem hasRoom_of_leavesRoom (room : p.leavesRoom file = true) : p.path.hasRoom file.1 = true :=
  FilePath.hasRoom_of_length_le room (length_lt_claimedName file.1).le

/-- Where there is room for a claim, there is room to set the file aside. -/
theorem hasRoom_setAsideName (room : p.leavesRoom file = true) : p.path.hasRoom (setAsideName file.1) = true :=
  FilePath.hasRoom_of_length_le room (length_setAsideName_lt file.1).le

/-- The path that an item was given is no other way to spell it, and it is not too long. -/
theorem isRefused_itemOf (claimable : isClaimable file.1 = true) (room : p.leavesRoom file = true)
    (folder : Folder) (claimed : FileName) : isRefused folder (p.itemOf file.1 file.2) claimed = false := by
  have fits : (p.filePath (claimedName file.1)).isTooLong = false :=
    FilePath.isTooLong_eq_false_iff.mpr (FilePath.hasRoom_iff.mp room).2
  rw [isRefused, itemPath?_itemOf p (isText_of_isClaimable claimable), Option.any_some, fits,
    filePath, FilePath.admits_push _ (leadsOn_claimedName file.1) (slash_notMem_claimedName claimable)]
  rfl

/-- A file without room for the ending of a claim is passed over. -/
theorem claim_eq_of_full (found : folder.find? name = some (.file body))
    (full : p.leavesRoom (name, body) = false) :
    (p.holding held).claim folder name = (none, p.holding held, folder) := by
  have refused : folder.rename (p.holding held).path name (claimedName name) = .error .nameTooLong :=
    Folder.rename_eq_of_not_hasRoom found full
  rw [claim, refused]

/-- A claimed file is given back under the name that it had. -/
theorem releaseOne_claimedName (p : Pickup) (claimable : isClaimable name = true) (folder : Folder) :
    p.releaseOne folder (claimedName name) =
      orUnchanged folder (folder.rename p.path (claimedName name) name) := by
  rw [releaseOne, ownName?_claimedName (isText_of_isClaimable claimable)]

/-- Giving back a claim gives the file the name that it had, and costs what has this name now. -/
theorem releaseOne_eq (plain : folder.Plain) (claimable : isClaimable file.1 = true)
    (room : p.leavesRoom file = true)
    (found : folder.find? (claimedName file.1) = some (.file file.2)) :
    p.releaseOne folder (claimedName file.1) = folder.move (claimedName file.1) file.1 file.2 := by
  have renamed := plain.rename_eq found room (hasRoom_of_leavesRoom room)
    (ne_claimedName_of_isClaimable claimable file.1).symm
  rw [releaseOne_claimedName p claimable, renamed]
  rfl

theorem mem_names_append {files : List (FileName × Bytes)} :
    name ∈ (files ++ [file]).map Prod.fst ↔ name ∈ files.map Prod.fst ∨ name = file.1 := by
  rw [List.map_append, List.mem_append, List.map_singleton, List.mem_singleton]

/-- One more file keeps names distinct if it has a new one. -/
theorem nodup_names_append {files : List (FileName × Bytes)} :
    ((files ++ [file]).map Prod.fst).Nodup ↔
      (files.map Prod.fst).Nodup ∧ file.1 ∉ files.map Prod.fst := by
  rw [List.map_append, List.map_singleton, List.nodup_append]
  constructor
  · rintro ⟨before, -, apart⟩
    exact ⟨before, fun old => apart _ old _ (List.mem_singleton_self _) rfl⟩
  · rintro ⟨before, fresh⟩
    refine ⟨before, List.nodup_singleton _, ?_⟩
    intro a old b new same
    rw [same, List.mem_singleton.mp new] at old
    exact fresh old

namespace Holds

/-- Two held files of one name are one file. -/
theorem eq_of_name_eq (h : Holds p folder held) {other : FileName × Bytes} (one : file ∈ held)
    (two : other ∈ held) (same : file.1 = other.1) : file = other := by
  have first := h.kept file one
  rw [same, h.kept other two] at first
  injection first with entry
  injection entry with body
  exact Prod.ext same body.symm

/-- Dropping one held file drops its name and no other. -/
theorem mem_names_erase (h : Holds p folder held) (member : file ∈ held) :
    name ∈ (held.erase file).map Prod.fst ↔ name ∈ held.map Prod.fst ∧ name ≠ file.1 := by
  have once : held.Nodup := h.distinct.of_map Prod.fst
  constructor
  · intro left
    obtain ⟨other, here, rfl⟩ := List.mem_map.mp left
    obtain ⟨differs, before⟩ := once.mem_erase_iff.mp here
    exact ⟨List.mem_map.mpr ⟨other, before, rfl⟩,
      fun same => differs (h.eq_of_name_eq before member same)⟩
  · rintro ⟨known, differs⟩
    obtain ⟨other, before, rfl⟩ := List.mem_map.mp known
    have apart : other ≠ file := fun same => differs (congrArg Prod.fst same)
    exact List.mem_map.mpr ⟨other, once.mem_erase_iff.mpr ⟨apart, before⟩, rfl⟩

/-- The claim that an item came from is found by its path. -/
theorem openClaim?_eq (h : Holds p folder held) (member : file ∈ held) :
    (p.holding held).openClaim? (p.itemOf file.1 file.2) = some (claimedName file.1) := by
  rw [openClaim?, itemPath?_itemOf p (isText_of_isClaimable (h.claimable file member))]
  show (held.map fun file => claimedName file.1).find? (fun c => FilePath.route (p.filePath c) == _) = _
  cases found : (held.map fun file => claimedName file.1).find?
      (fun c => FilePath.route (p.filePath c) == FilePath.route (p.filePath (claimedName file.1))) with
  | none =>
      rw [List.find?_eq_none] at found
      exact absurd (beq_self_eq_true _) (found _ (List.mem_map.mpr ⟨file, member, rfl⟩))
  | some claimed =>
      obtain ⟨other, here, rfl⟩ := List.mem_map.mp (List.mem_of_find?_eq_some found)
      have same : FilePath.route (p.filePath (claimedName other.1)) =
          FilePath.route (p.filePath (claimedName file.1)) := by
        simpa using List.find?_some found
      rw [route_filePath_injective (h.claimable other here) (h.claimable file member) same]

/-- The item of a file that is not held has no open claim. -/
theorem openClaim?_eq_none (h : Holds p folder held) (claimable : isClaimable name = true)
    (settled : name ∉ held.map Prod.fst) : (p.holding held).openClaim? (p.itemOf name body) = none := by
  rw [openClaim?, itemPath?_itemOf p (isText_of_isClaimable claimable)]
  show (held.map fun file => claimedName file.1).find? (fun c => FilePath.route (p.filePath c) == _) = none
  rw [List.find?_eq_none]
  intro claimed member same
  obtain ⟨other, here, rfl⟩ := List.mem_map.mp member
  have names := route_filePath_injective (h.claimable other here) claimable (eq_of_beq same)
  exact settled (List.mem_map.mpr ⟨other, here, names⟩)

/-- Finishing an item whose claim is settled changes nothing. -/
theorem finish_eq_of_settled (h : Holds p folder held) (claimable : isClaimable name = true)
    (settled : name ∉ held.map Prod.fst) (processed : Bool) :
    (p.holding held).finish folder (p.itemOf name body) processed = (p.holding held, folder) := by
  rw [finish, h.openClaim?_eq_none claimable settled]

/-! ### Claiming and settling

Renaming a file to its claim, removing the claim and setting it aside change one name or two, and leave the
claims of all other files in place. -/

/-- Any other file is claimed, with its content. -/
theorem claim_eq (h : Holds p folder held) (claimable : isClaimable name = true)
    (fresh : name ∉ held.map Prod.fst) (found : folder.find? name = some (.file body))
    (room : p.leavesRoom (name, body) = true) :
    (p.holding held).claim folder name =
      (some (p.itemOf name body), p.holding (held ++ [(name, body)]),
        folder.move name (claimedName name) body) := by
  have renamed : folder.rename (p.holding held).path name (claimedName name) =
      .ok (folder.move name (claimedName name) body) :=
    h.plain.rename_eq found (hasRoom_of_leavesRoom room) room (ne_claimedName_of_isClaimable claimable name)
  have read : (folder.move name (claimedName name) body).read (claimedName name) = .ok body := by
    rw [Folder.read, Folder.find?_move, if_pos rfl]
  have noted : (p.holding held).insertClaim (claimedName name) =
      p.holding (held ++ [(name, body)]) := by
    have unknown : claimedName name ∉ (p.holding held).claimed := by
      intro known
      obtain ⟨other, member, same⟩ := List.mem_map.mp known
      exact fresh (List.mem_map.mpr ⟨other, member, claimedName_injective same⟩)
    rw [insertClaim, if_neg unknown, holding, holding, List.map_append, List.map_singleton]
  rw [claim, renamed]
  simp only [read, noted]
  rfl

/-- A file that is claimed is held. -/
theorem claim (h : Holds p folder held) (claimable : isClaimable name = true)
    (fresh : name ∉ held.map Prod.fst) (room : p.leavesRoom (name, body) = true) :
    Holds p (folder.move name (claimedName name) body) (held ++ [(name, body)]) where
  plain := h.plain.move _ _ _
  claimable := by
    intro file member
    rcases List.mem_append.mp member with old | new
    · exact h.claimable file old
    · rw [List.mem_singleton.mp new]
      exact claimable
  distinct := nodup_names_append.mpr ⟨h.distinct, fresh⟩
  room := by
    intro file member
    rcases List.mem_append.mp member with old | new
    · exact h.room file old
    · rw [List.mem_singleton.mp new]
      exact room
  kept := by
    intro file member
    rw [Folder.find?_move]
    rcases List.mem_append.mp member with old | new
    · have other : claimedName file.1 ≠ claimedName name := by
        intro same
        exact fresh (List.mem_map.mpr ⟨file, old, claimedName_injective same⟩)
      rw [if_neg other, if_neg (ne_claimedName_of_isClaimable claimable file.1).symm]
      exact h.kept file old
    · rw [List.mem_singleton.mp new, if_pos rfl]

/-- When one claim is settled, the pickup keeps those of the other files. -/
theorem holding_erase (h : Holds p folder held) (member : file ∈ held) :
    ({ p.holding held with claimed := (p.holding held).claimed.filter (· != claimedName file.1) } : Pickup) =
      p.holding (held.erase file) := by
  show ({ p with claimed := (held.map fun file => claimedName file.1).filter (· != claimedName file.1) } : Pickup) = _
  have once : held.Nodup := h.distinct.of_map Prod.fst
  rw [holding, once.erase_eq_filter, List.filter_map]
  congr 2
  apply List.filter_congr
  intro other here
  rw [Bool.eq_iff_iff, bne_iff_ne, Function.comp, bne_iff_ne]
  constructor
  · intro differs same
    exact differs (same ▸ rfl)
  · intro differs same
    exact differs (h.eq_of_name_eq here member (claimedName_injective same))

/-- Whatever leaves the claims of the other files alone leaves these files held. -/
theorem of_erase (h : Holds p folder held) (member : file ∈ held) {changed : Folder}
    (plain : changed.Plain)
    (same : ∀ other ∈ held, other.1 ≠ file.1 →
      changed.find? (claimedName other.1) = folder.find? (claimedName other.1)) :
    Holds p changed (held.erase file) where
  plain := plain
  claimable := fun other here => h.claimable other (List.mem_of_mem_erase here)
  distinct := h.distinct.sublist (List.erase_sublist.map Prod.fst)
  room := fun other here => h.room other (List.mem_of_mem_erase here)
  kept := by
    intro other here
    have once : held.Nodup := h.distinct.of_map Prod.fst
    obtain ⟨differs, before⟩ := once.mem_erase_iff.mp here
    rw [same other before fun name => differs (h.eq_of_name_eq before member name)]
    exact h.kept other before

/-- A processed file is removed. -/
theorem finish_eq_of_processed (h : Holds p folder held) (member : file ∈ held) :
    (p.holding held).finish folder (p.itemOf file.1 file.2) true =
      (p.holding (held.erase file), folder.erase (claimedName file.1)) := by
  have removed : folder.remove (claimedName file.1) = .ok (folder.erase (claimedName file.1)) := by
    rw [Folder.remove, h.kept file member]
  rw [finish, h.openClaim?_eq member]
  simp only [isRefused_itemOf (h.claimable file member) (h.room file member), Bool.false_eq_true,
    if_false, if_true, removed, orUnchanged, h.holding_erase member]

/-- A processed file is held no more, and the others still are. -/
theorem remove (h : Holds p folder held) (member : file ∈ held) :
    Holds p (folder.erase (claimedName file.1)) (held.erase file) := by
  apply h.of_erase member (h.plain.erase _)
  intro other here differs
  rw [find?_erase, if_neg fun same => differs (claimedName_injective same)]

/-- A file that was not processed is set aside. -/
theorem finish_eq_of_failed (h : Holds p folder held) (member : file ∈ held) :
    (p.holding held).finish folder (p.itemOf file.1 file.2) false =
      (p.holding (held.erase file),
        folder.move (claimedName file.1) (setAsideName file.1) file.2) := by
  have parked : parkedName (claimedName file.1) = setAsideName file.1 :=
    parkedName_claimedName (isText_of_isClaimable (h.claimable file member))
  have renamed : folder.rename (p.holding held).path (claimedName file.1) (setAsideName file.1) =
      .ok (folder.move (claimedName file.1) (setAsideName file.1) file.2) :=
    h.plain.rename_eq (h.kept file member) (h.room file member) (hasRoom_setAsideName (h.room file member))
      (claimedName_ne_setAsideName _ _)
  rw [finish, h.openClaim?_eq member]
  simp only [isRefused_itemOf (h.claimable file member) (h.room file member), Bool.false_eq_true,
    if_false, parked, renamed, orUnchanged, h.holding_erase member]

/-- A file that was set aside is held no more, and the others still are. -/
theorem setAside (h : Holds p folder held) (member : file ∈ held) :
    Holds p (folder.move (claimedName file.1) (setAsideName file.1) file.2) (held.erase file) := by
  apply h.of_erase member (h.plain.move _ _ _)
  intro other here differs
  rw [Folder.find?_move, if_neg (claimedName_ne_setAsideName _ _),
    if_neg fun same => differs (claimedName_injective same)]

/-! ### Polls

A poll claims its candidates one after another.  What holds of a poll is proved for a property of the files
claimed so far and of the folder that each claim keeps. -/

section

variable {motive : List (FileName × Bytes) → Folder → Prop}
  (step : ∀ {held : List (FileName × Bytes)} {folder : Folder} {file : FileName × Bytes},
    Holds p folder held → motive held folder → isClaimable file.1 = true → file.1 ∉ held.map Prod.fst →
    folder.find? file.1 = some (.file file.2) → p.leavesRoom file = true →
    motive (held ++ [file]) (folder.move file.1 (claimedName file.1) file.2))

include step

/-- Of the files whose turn it is, those that leave room are claimed, and what each claim keeps is kept. -/
theorem claimAll_eq {ahead : List (FileName × Bytes)} (h : Holds p folder held) (kept : motive held folder)
    (there : ∀ file ∈ ahead, isClaimable file.1 = true ∧ folder.find? file.1 = some (.file file.2))
    (apart : ((held ++ ahead).map Prod.fst).Nodup) :
    ∃ changed : Folder,
      (p.holding held).claimAll folder (ahead.map Prod.fst) =
        (p.itemsOf (ahead.filter p.leavesRoom), p.holding (held ++ ahead.filter p.leavesRoom), changed) ∧
      Holds p changed (held ++ ahead.filter p.leavesRoom) ∧ motive (held ++ ahead.filter p.leavesRoom) changed := by
  induction ahead generalizing held folder with
  | nil =>
      rw [List.filter_nil, List.append_nil]
      exact ⟨folder, rfl, h, kept⟩
  | cons file rest ih =>
      obtain ⟨name, body⟩ := file
      obtain ⟨⟨claimable, found⟩, later⟩ := List.forall_mem_cons.mp there
      rw [List.append_cons] at apart
      have before : ((held ++ [(name, body)]).map Prod.fst).Nodup := by
        rw [List.map_append] at apart
        exact (List.nodup_append.mp apart).1
      have fresh := (nodup_names_append.mp before).2
      cases room : p.leavesRoom (name, body) with
      | true =>
        have others : ∀ file ∈ rest, isClaimable file.1 = true ∧
            (folder.move name (claimedName name) body).find? file.1 = some (.file file.2) := by
          intro file member
          obtain ⟨wanted, listed⟩ := later file member
          -- The claim moves one name only, so that the other files are found as before.
          have differs : file.1 ≠ name := by
            rintro rfl
            rw [List.map_append, List.nodup_append] at apart
            exact apart.2.2 file.1 (by simp) file.1 (List.mem_map_of_mem member) rfl
          rw [Folder.find?_move, if_neg (ne_claimedName_of_isClaimable wanted name), if_neg differs]
          exact ⟨wanted, listed⟩
        obtain ⟨changed, result, holds, stays⟩ := ih (h.claim claimable fresh room)
          (step h kept claimable fresh found room) others apart
        rw [List.filter_cons_of_pos room, List.append_cons]
        refine ⟨changed, ?_, holds, stays⟩
        rw [List.map_cons, claimAll, h.claim_eq claimable fresh found room]
        simp only [result]
        rfl
      | false =>
        have others : ((held ++ rest).map Prod.fst).Nodup := by
          refine apart.sublist (List.Sublist.map _ ?_)
          exact List.Sublist.append_right (List.sublist_append_left held _) rest
        obtain ⟨changed, result, holds, stays⟩ := ih h kept later others
        rw [List.filter_cons_of_neg (ne_true_of_eq_false room)]
        refine ⟨changed, ?_, holds, stays⟩
        rw [List.map_cons, claimAll, claim_eq_of_full found room]
        simp only [result]
        rfl

/-- A poll takes, among the first files that are there, those that leave room. -/
theorem poll_eq (h : Holds p folder held) (kept : motive held folder)
    (gone : ∀ file ∈ held, folder.find? file.1 = none) :
    let took := ((claimableFiles folder).take p.limit).filter p.leavesRoom
    ∃ changed : Folder, (p.holding held).poll folder = (p.itemsOf took, p.holding (held ++ took), changed) ∧
      Holds p changed (held ++ took) ∧ motive (held ++ took) changed := by
  have sorted := h.plain.sorted
  have there (file : FileName × Bytes) (member : file ∈ (claimableFiles folder).take p.limit) :
      isClaimable file.1 = true ∧ folder.find? file.1 = some (.file file.2) :=
    (mem_claimableFiles sorted).mp (List.mem_of_mem_take member)
  have apart : ((held ++ (claimableFiles folder).take p.limit).map Prod.fst).Nodup := by
    rw [List.map_append, List.nodup_append]
    refine ⟨h.distinct, (nodup_claimableFiles sorted).sublist ((List.take_sublist _ _).map _), ?_⟩
    intro a old b new same
    obtain ⟨file, inside, rfl⟩ := List.mem_map.mp old
    obtain ⟨other, member, rfl⟩ := List.mem_map.mp new
    have found := (there other member).2
    rw [← same, gone file inside] at found
    cases found
  have names : candidates (p.holding held).limit folder =
      ((claimableFiles folder).take p.limit).map Prod.fst := candidates_eq sorted p.limit
  rw [poll, names]
  exact h.claimAll_eq step kept there apart

end

end Holds

end Pickup

end Intake
