/-
Module: Intake.Proofs.Pickup.Settlement
Purpose: However the items of a poll are settled, every file ends where its settlement says.
Main exports: Table.find?_ofList_eq_some_iff, Pickup.Arranged, Pickup.Arranged.change,
  Pickup.Arranged.eq_arranged, Pickup.finishAll_eq, Pickup.Arranged.release,
  Pickup.poll_settled_and_released

Every step of a round gives one file another fate.  The places of two files never meet, as long as the names that
the pickup uses were free at the start; so one lemma about a changed fate covers claims, settlements and releases.
-/
import Mathlib.Data.List.Induction
import Intake.Pickup.Settlement
import Intake.Proofs.Pickup.Polling

namespace Intake

/-! ### Tables of pairs with keys of their own

A folder in which every file has its place is built from the pairs of places and files.  As no two files share
a place, the table has each of these pairs. -/

namespace Table

variable {α : Type u} {κ : Type} [DecidableEq κ] [LT κ] [DecidableLT κ] {k : κ} {v : α}

/-- Entries put one after another are all there, and so is what was there under other keys. -/
theorem find?_foldl_put {pairs : List (κ × α)} (distinct : (pairs.map Prod.fst).Nodup) (t : Table α κ) :
    (pairs.foldl (fun t p => t.put p.1 p.2) t).find? k = some v ↔
      (k, v) ∈ pairs ∨ k ∉ pairs.map Prod.fst ∧ t.find? k = some v := by
  induction pairs generalizing t with
  | nil => simp
  | cons p rest ih =>
      obtain ⟨apart, others⟩ := List.nodup_cons.mp distinct
      rw [List.foldl_cons, ih others, find?_put, List.mem_cons, List.map_cons, List.mem_cons, not_or]
      by_cases same : k = p.1
      · subst same
        have later : (p.1, v) ∉ rest := fun member => apart (List.mem_map.mpr ⟨_, member, rfl⟩)
        simp [later, apart, Prod.ext_iff, eq_comm]
      · simp [same, Prod.ext_iff]

/-- Where no key comes twice, a table of pairs has all of them. -/
theorem find?_ofList_eq_some_iff {pairs : List (κ × α)} (distinct : (pairs.map Prod.fst).Nodup) :
    (ofList pairs).find? k = some v ↔ (k, v) ∈ pairs := by
  rw [ofList, find?_foldl_put distinct]
  simp

end Table

namespace Pickup

open Table

variable {p : Pickup} {start folder changed : Folder} {files : List (FileName × Bytes)}
  {file : FileName × Bytes} {fate : FileName → Fate} {name : FileName} {body : Bytes}

/-! ### Folders with files in their places

Each file has a fate, and from the fate follows the place where it is.  A step of the pickup changes the fate
of one file, and the folder changes as this fate says. -/

/-- Where a file may be: under its own name, or, if a pickup has dealt with it, under one that the pickup uses. -/
theorem place?_cases (only : ∀ name, fate name ≠ .kept → name ∈ files.map Prod.fst) {target : FileName}
    (place : (fate name).place? name = some target) :
    target = name ∨ name ∈ files.map Prod.fst ∧ (target = claimedName name ∨ target = setAsideName name) := by
  cases now : fate name with
  | kept =>
      rw [now] at place
      exact .inl (Option.some.inj place).symm
  | claimed =>
      rw [now] at place
      exact .inr ⟨only name (by simp [now]), .inl (Option.some.inj place).symm⟩
  | removed =>
      rw [now] at place
      cases place
  | setAside =>
      rw [now] at place
      exact .inr ⟨only name (by simp [now]), .inr (Option.some.inj place).symm⟩

/-- The names that a pickup uses for some files are free. -/
def NamesFree (start : Folder) (files : List (FileName × Bytes)) : Prop :=
  ∀ name ∈ files.map Prod.fst,
    start.find? (claimedName name) = none ∧ start.find? (setAsideName name) = none

/-- No two files of the start are in one place. -/
theorem eq_of_place?_eq (free : NamesFree start files)
    (only : ∀ name, fate name ≠ .kept → name ∈ files.map Prod.fst) {a b target : FileName}
    {one two : FileEntry} (ha : start.find? a = some one) (hb : start.find? b = some two)
    (first : (fate a).place? a = some target) (second : (fate b).place? b = some target) : a = b := by
  -- A name that the start has is none of those that the pickup uses.
  have unlike {name other : FileName} {entry : FileEntry} (found : start.find? name = some entry)
      (known : other ∈ files.map Prod.fst) : name ≠ claimedName other ∧ name ≠ setAsideName other := by
    obtain ⟨claim, aside⟩ := free other known
    constructor
    · rintro rfl
      rw [claim] at found
      cases found
    · rintro rfl
      rw [aside] at found
      cases found
  rcases place?_cases only first with rfl | ⟨inA, rfl | rfl⟩
  · rcases place?_cases only second with same | ⟨inB, claim | aside⟩
    · exact same
    · exact absurd claim (unlike ha inB).1
    · exact absurd aside (unlike ha inB).2
  · rcases place?_cases only second with same | ⟨-, claim | aside⟩
    · exact absurd same.symm (unlike hb inA).1
    · exact claimedName_injective claim
    · exact absurd aside (claimedName_ne_setAsideName a b)
  · rcases place?_cases only second with same | ⟨-, claim | aside⟩
    · exact absurd same.symm (unlike hb inA).2
    · exact absurd claim.symm (claimedName_ne_setAsideName b a)
    · exact setAsideName_injective aside

/-- A folder that has every file of the start in the place that its fate gives it, and nothing else.  Only some
files have another fate than to be kept. -/
structure Arranged (start : Folder) (files : List (FileName × Bytes)) (fate : FileName → Fate)
    (folder : Folder) : Prop where
  plain : folder.Plain
  there : ∀ file ∈ files, start.find? file.1 = some (.file file.2)
  free : NamesFree start files
  only : ∀ name, fate name ≠ .kept → name ∈ files.map Prod.fst
  found : ∀ target entry, folder.find? target = some entry ↔
    ∃ name, start.find? name = some entry ∧ (fate name).place? name = some target

namespace Arranged

/-- One file gets another fate, and with it another place or none. -/
theorem change (h : Arranged start files fate folder) (member : file ∈ files) {source : FileName}
    (old : (fate file.1).place? file.1 = some source) (new : Fate) (plain : changed.Plain)
    (moved : ∀ target, changed.find? target =
      if new.place? file.1 = some target then some (.file file.2)
      else if target = source then none else folder.find? target) :
    Arranged start files (Function.update fate file.1 new) changed := by
  have there := h.there file member
  have only : ∀ name, Function.update fate file.1 new name ≠ .kept → name ∈ files.map Prod.fst := by
    intro name other
    by_cases same : name = file.1
    · exact same ▸ List.mem_map_of_mem member
    · rw [Function.update_of_ne same] at other
      exact h.only name other
  refine ⟨plain, h.there, h.free, only, fun target entry => ?_⟩
  rw [moved]
  by_cases here : new.place? file.1 = some target
  · rw [if_pos here]
    constructor
    · rintro ⟨rfl⟩
      exact ⟨file.1, there, by rw [Function.update_self, here]⟩
    · rintro ⟨name, found, place⟩
      have same : name = file.1 :=
        eq_of_place?_eq h.free only found there place (by rw [Function.update_self, here])
      rw [← there, ← same, found]
  · rw [if_neg here]
    by_cases left : target = source
    · rw [if_pos left]
      refine iff_of_false (fun impossible => by cases impossible) ?_
      rintro ⟨name, found, place⟩
      by_cases same : name = file.1
      · rw [same, Function.update_self] at place
        exact here place
      · rw [Function.update_of_ne same, left] at place
        exact same (eq_of_place?_eq h.free h.only found there place old)
    · rw [if_neg left, h.found]
      refine exists_congr fun name => and_congr_right fun _ => ?_
      by_cases same : name = file.1
      · rw [same, Function.update_self, old]
        exact iff_of_false (fun place => left (Option.some.inj place).symm) here
      · rw [Function.update_of_ne same]

/-- A file that is in a place is found there. -/
theorem find?_place (h : Arranged start files fate folder) (member : file ∈ files) {source : FileName}
    (place : (fate file.1).place? file.1 = some source) : folder.find? source = some (.file file.2) :=
  (h.found source _).mpr ⟨file.1, h.there file member, place⟩

/-- A file is moved to its new place. -/
theorem move (h : Arranged start files fate folder) (member : file ∈ files) {source target : FileName}
    (old : (fate file.1).place? file.1 = some source) {new : Fate} (place : new.place? file.1 = some target) :
    Arranged start files (Function.update fate file.1 new) (folder.move source target file.2) := by
  apply h.change member old new (h.plain.move _ _ _)
  intro other
  rw [Folder.find?_move, place]
  by_cases same : other = target
  · rw [if_pos same, if_pos (congrArg some same.symm)]
  · rw [if_neg same, if_neg fun there => same (Option.some.inj there).symm]

/-- A file is removed from its place. -/
theorem erase (h : Arranged start files fate folder) (member : file ∈ files) {source : FileName}
    (old : (fate file.1).place? file.1 = some source) :
    Arranged start files (Function.update fate file.1 .removed) (folder.erase source) := by
  apply h.change member old .removed (h.plain.erase _)
  intro other
  have gone : ¬ Fate.removed.place? file.1 = some other := fun there => by cases there
  rw [find?_erase]
  exact (if_neg gone).symm

/-- The places of the files of the start are all different. -/
theorem nodup_places (h : Arranged start files fate folder) (sorted : start.Sorted) :
    (start.entries.filterMap fun entry => (fate entry.1).place? entry.1).Nodup := by
  rw [List.Nodup, List.pairwise_filterMap]
  refine List.Pairwise.imp_of_mem ?_ sorted
  intro a b inA inB less one first two second same
  subst same
  have names := eq_of_place?_eq h.free h.only (sorted.find?_eq_some_iff.mpr inA)
    (sorted.find?_eq_some_iff.mpr inB) first second
  rw [names] at less
  exact Std.Irrefl.irrefl _ less

/-- The folder is the start with every file in its place. -/
theorem eq_arranged (h : Arranged start files fate folder) (sorted : start.Sorted) :
    folder = start.arranged fun name => (fate name).place? name := by
  have keys : (start.entries.filterMap fun entry =>
      ((fate entry.1).place? entry.1).map fun name => (name, entry.2)).map Prod.fst =
        start.entries.filterMap fun entry => (fate entry.1).place? entry.1 := by
    rw [List.map_filterMap]
    congr 1
    funext entry
    rw [Option.map_map]
    exact Option.map_id'
  apply Sorted.ext h.plain.sorted (sorted_ofList _)
  intro target
  apply Option.ext
  intro entry
  rw [h.found, find?_ofList_eq_some_iff (by rw [keys]; exact h.nodup_places sorted), List.mem_filterMap]
  constructor
  · rintro ⟨name, found, place⟩
    exact ⟨(name, entry), sorted.find?_eq_some_iff.mp found, by simp only [place, Option.map_some]⟩
  · rintro ⟨⟨name, other⟩, member, place⟩
    obtain ⟨there, here, same⟩ := Option.map_eq_some_iff.mp place
    obtain ⟨rfl, rfl⟩ := Prod.mk.inj same
    exact ⟨name, sorted.find?_eq_some_iff.mpr member, here⟩

end Arranged

/-! ### Settling

The first settlement of a file decides its fate, and later ones do nothing.  So what a sequence of settlements
does can be read off the sequence, without following the folder through it. -/

variable {settlements : List (Item × Bool)}

/-- One more settlement counts if there was none of the same name before. -/
theorem verdict?_concat (settlements : List (Item × Bool)) (item : Item) (processed : Bool) (name : FileName) :
    verdict? (settlements ++ [(item, processed)]) name =
      (verdict? settlements name).or (if nameOf item = name then some processed else none) := by
  rw [verdict?, verdict?, List.find?_append, Option.map_or]
  congr 1
  by_cases same : nameOf item = name
  · rw [List.find?_cons_of_pos (by simpa using same), if_pos same, Option.map_some]
  · rw [List.find?_cons_of_neg (by simpa using same), if_neg same]
    rfl

/-- A file that was settled has a verdict. -/
theorem verdict?_ne_none {settlement : Item × Bool} (member : settlement ∈ settlements) :
    verdict? settlements (nameOf settlement.1) ≠ none := by
  rw [verdict?, Ne, Option.map_eq_none_iff, List.find?_eq_none]
  intro absent
  exact absent settlement member (beq_self_eq_true _)

/-- The files that are not settled. -/
def unsettled (files : List (FileName × Bytes)) (settlements : List (Item × Bool)) : List (FileName × Bytes) :=
  files.filter fun file => (verdict? settlements file.1).isNone

/-- The files that are not settled, by their names. -/
theorem mem_unsettled_names : name ∈ (unsettled files settlements).map Prod.fst ↔
    name ∈ files.map Prod.fst ∧ verdict? settlements name = none := by
  rw [List.mem_map, List.mem_map]
  constructor
  · rintro ⟨file, member, rfl⟩
    obtain ⟨inside, none⟩ := List.mem_filter.mp member
    exact ⟨⟨file, inside, rfl⟩, Option.isNone_iff_eq_none.mp none⟩
  · rintro ⟨⟨file, inside, rfl⟩, none⟩
    exact ⟨file, List.mem_filter.mpr ⟨inside, Option.isNone_iff_eq_none.mpr none⟩, rfl⟩

/-- What has become of a file as long as open claims are not given back. -/
def fateMeanwhile (files : List (FileName × Bytes)) (settlements : List (Item × Bool)) (name : FileName) : Fate :=
  if (files.map Prod.fst).contains name && (verdict? settlements name).isNone then .claimed
  else fateOf settlements name

/-- A file that is not settled yet is still claimed. -/
theorem fateMeanwhile_of_open (known : name ∈ files.map Prod.fst) (out : verdict? settlements name = none) :
    fateMeanwhile files settlements name = .claimed := by
  rw [fateMeanwhile, List.contains_iff_mem.mpr known, out]
  rfl

/-- Any other file has the fate that its settlement gives it. -/
theorem fateMeanwhile_of_not_open (other : ¬ (name ∈ files.map Prod.fst ∧ verdict? settlements name = none)) :
    fateMeanwhile files settlements name = fateOf settlements name := by
  rw [fateMeanwhile, if_neg]
  rwa [Bool.and_eq_true, List.contains_iff_mem, Option.isNone_iff_eq_none]

/-- Settlements with the same verdict on a file give it the same fate. -/
theorem fateMeanwhile_congr {others : List (Item × Bool)} (same : verdict? others name = verdict? settlements name) :
    fateMeanwhile files others name = fateMeanwhile files settlements name := by
  simp only [fateMeanwhile, fateOf, same]

/-- Right after a poll the files that it took are claimed. -/
theorem Taken.arranged (h : Taken start files folder) (plain : folder.Plain) (free : NamesFree start files) :
    Arranged start files (fateMeanwhile files []) folder := by
  have claimed {name : FileName} (known : name ∈ files.map Prod.fst) : fateMeanwhile files [] name = .claimed :=
    fateMeanwhile_of_open known rfl
  have kept {name : FileName} (unknown : name ∉ files.map Prod.fst) : fateMeanwhile files [] name = .kept :=
    fateMeanwhile_of_not_open fun listed => unknown listed.1
  refine ⟨plain, h.there, free, fun name other => ?_, fun target entry => ⟨fun found => ?_, ?_⟩⟩
  · by_contra unknown
    exact other (kept unknown)
  · by_cases claim : ∃ file ∈ files, target = claimedName file.1
    · obtain ⟨file, member, rfl⟩ := claim
      rw [h.claimed file member] at found
      obtain rfl := Option.some.inj found
      exact ⟨file.1, h.there file member, by rw [claimed (List.mem_map_of_mem member)]; rfl⟩
    · have unknown : target ∉ files.map Prod.fst := by
        intro known
        obtain ⟨file, member, rfl⟩ := List.mem_map.mp known
        rw [h.gone file member] at found
        cases found
      have same := h.others target fun file member =>
        ⟨fun own => unknown (own ▸ List.mem_map_of_mem member), fun own => claim ⟨file, member, own⟩⟩
      exact ⟨target, same.symm.trans found, by rw [kept unknown]; rfl⟩
  · rintro ⟨name, found, place⟩
    by_cases known : name ∈ files.map Prod.fst
    · rw [claimed known] at place
      obtain rfl := Option.some.inj place
      obtain ⟨file, member, rfl⟩ := List.mem_map.mp known
      rw [h.claimed file member, ← h.there file member, found]
    · rw [kept known] at place
      obtain rfl := Option.some.inj place
      rw [h.others name, found]
      intro file member
      refine ⟨fun own => known (own ▸ List.mem_map_of_mem member), ?_⟩
      rintro rfl
      rw [(free file.1 (List.mem_map_of_mem member)).1] at found
      cases found

section

variable {item : Item} {processed first : Bool}

/-- A settlement of a file that is settled already has no effect on what becomes of any file. -/
theorem verdict?_concat_of_settled (settled : verdict? settlements (nameOf item) = some first) :
    verdict? (settlements ++ [(item, processed)]) = verdict? settlements := by
  funext name
  rw [verdict?_concat]
  by_cases same : nameOf item = name
  · rw [← same, settled, Option.some_or]
  · rw [if_neg same, Option.or_none]

/-- The first settlement of a file leaves the others as they are. -/
theorem unsettled_concat (distinct : (files.map Prod.fst).Nodup) (member : file ∈ unsettled files settlements)
    (own : nameOf item = file.1) :
    unsettled files (settlements ++ [(item, processed)]) = (unsettled files settlements).erase file := by
  have once : (unsettled files settlements).Nodup := (distinct.of_map Prod.fst).filter _
  rw [once.erase_eq_filter, unsettled, unsettled, List.filter_filter]
  apply List.filter_congr
  intro other inside
  have apart : other != file ↔ nameOf item ≠ other.1 := by
    rw [own, bne_iff_ne, not_iff_not]
    refine ⟨fun same => congrArg Prod.fst same.symm, fun same => ?_⟩
    exact List.inj_on_of_nodup_map distinct inside (List.mem_of_mem_filter member) same.symm
  rw [verdict?_concat, Bool.eq_iff_iff, Bool.and_eq_true, apart]
  cases verdict? settlements other.1 with
  | some processed => simp
  | none => simp

/-- The first settlement of a file changes the fate of this file alone. -/
theorem fateMeanwhile_concat (out : verdict? settlements file.1 = none) (own : nameOf item = file.1) :
    fateMeanwhile files (settlements ++ [(item, processed)]) =
      Function.update (fateMeanwhile files settlements) file.1 (if processed then .removed else .setAside) := by
  funext name
  by_cases same : name = file.1
  · have verdict : verdict? (settlements ++ [(item, processed)]) name = some processed := by
      rw [verdict?_concat, same, out, if_pos own, Option.none_or]
    rw [same, Function.update_self, ← same, fateMeanwhile_of_not_open (by simp [verdict]), fateOf, verdict]
    cases processed with
    | true => rfl
    | false => rfl
  · rw [Function.update_of_ne same]
    apply fateMeanwhile_congr
    rw [verdict?_concat, if_neg (own ▸ Ne.symm same), Option.or_none]

end

/-- The last settlement comes after all others. -/
theorem finishAll_concat (p : Pickup) (folder : Folder) (settlements : List (Item × Bool)) (item : Item)
    (processed : Bool) :
    p.finishAll folder (settlements ++ [(item, processed)]) =
      (p.finishAll folder settlements).1.finish (p.finishAll folder settlements).2 item processed := by
  rw [finishAll, List.foldl_append]
  rfl

/-- Settling items in turn gives each file the fate that its first settlement says. -/
theorem finishAll_eq (holds : Holds p folder files) (arranged : Arranged start files (fateMeanwhile files []) folder)
    (returned : ∀ settlement ∈ settlements, settlement.1 ∈ p.itemsOf files) :
    ∃ changed, (p.holding files).finishAll folder settlements =
        (p.holding (unsettled files settlements), changed) ∧
      Holds p changed (unsettled files settlements) ∧
      Arranged start files (fateMeanwhile files settlements) changed := by
  induction settlements using List.reverseRecOn with
  | nil =>
      have all : unsettled files [] = files := List.filter_eq_self.mpr fun _ _ => rfl
      exact ⟨folder, by rw [all]; rfl, all.symm ▸ holds, arranged⟩
  | append_singleton settlements settlement ih =>
      obtain ⟨before, last⟩ := List.forall_mem_append.mp returned
      obtain ⟨changed, result, held, places⟩ := ih before
      obtain ⟨file, member, item⟩ := List.mem_map.mp (last settlement List.mem_cons_self)
      obtain ⟨_, processed⟩ := settlement
      obtain rfl : p.itemOf file.1 file.2 = _ := item
      have claimable := holds.claimable file member
      have own : nameOf (p.itemOf file.1 file.2) = file.1 := nameOf_itemOf (isText_of_isClaimable claimable)
      rw [finishAll_concat, result]
      cases verdict : verdict? settlements file.1 with
      | some first =>
          have settled : file.1 ∉ (unsettled files settlements).map Prod.fst := by
            rw [mem_unsettled_names, verdict]
            simp
          have same : verdict? (settlements ++ [(p.itemOf file.1 file.2, processed)]) = verdict? settlements :=
            verdict?_concat_of_settled (own.symm ▸ verdict)
          have fates : fateMeanwhile files (settlements ++ [(p.itemOf file.1 file.2, processed)]) =
              fateMeanwhile files settlements := funext fun name => fateMeanwhile_congr (congrFun same name)
          refine ⟨changed, ?_, ?_, ?_⟩
          · rw [held.finish_eq_of_settled claimable settled, unsettled, unsettled, same]
          · rwa [unsettled, same]
          · rwa [fates]
      | none =>
          have inside : file ∈ unsettled files settlements :=
            List.mem_filter.mpr ⟨member, Option.isNone_iff_eq_none.mpr verdict⟩
          have place : (fateMeanwhile files settlements file.1).place? file.1 = some (claimedName file.1) := by
            rw [fateMeanwhile_of_open (List.mem_map_of_mem member) verdict]
            rfl
          rw [unsettled_concat holds.distinct inside own, fateMeanwhile_concat verdict own]
          cases processed with
          | true =>
              rw [held.finish_eq_of_processed inside, if_pos rfl]
              exact ⟨_, rfl, held.remove inside, places.erase member place⟩
          | false =>
              rw [held.finish_eq_of_failed inside, if_neg Bool.false_ne_true]
              exact ⟨_, rfl, held.setAside inside, places.move member place rfl⟩

/-! ### Giving back

A pickup that stops gives back the claims that are still open.  The order does not matter, because each claim
goes back to a name of its own. -/

/-- Giving back open claims, in any order, puts their files back under their own names. -/
theorem Arranged.release {order : List FileName} (h : Arranged start files fate folder) (distinct : order.Nodup)
    (held : ∀ claimed ∈ order, ∃ file ∈ files, claimed = claimedName file.1 ∧ fate file.1 = .claimed ∧
      isClaimable file.1 = true ∧ p.leavesRoom file = true) :
    Arranged start files (fun name => if claimedName name ∈ order then .kept else fate name)
      (order.foldl p.releaseOne folder) := by
  induction order generalizing fate folder with
  | nil => simpa using h
  | cons claimed rest ih =>
      obtain ⟨apart, others⟩ := List.nodup_cons.mp distinct
      obtain ⟨⟨file, member, rfl, now, claimable, room⟩, later⟩ := List.forall_mem_cons.mp held
      have place : (fate file.1).place? file.1 = some (claimedName file.1) := by
        rw [now]
        rfl
      have back := releaseOne_eq h.plain claimable room (h.find?_place member place)
      have kept : Fate.kept.place? file.1 = some file.1 := rfl
      have moved := h.move member place kept
      have rested := ih moved others fun claimed listed => by
        obtain ⟨other, inside, rfl, out, wanted, fits⟩ := later claimed listed
        have differs : other.1 ≠ file.1 := fun same => apart (same ▸ listed)
        exact ⟨other, inside, rfl, by rw [Function.update_of_ne differs, out], wanted, fits⟩
      rw [List.foldl_cons, back]
      have fates : (fun name => if claimedName name ∈ claimedName file.1 :: rest then Fate.kept else fate name) =
          fun name => if claimedName name ∈ rest then .kept else Function.update fate file.1 .kept name := by
        funext name
        by_cases same : name = file.1
        · rw [same, if_pos List.mem_cons_self, Function.update_self, ite_self]
        · have unlike : claimedName name ≠ claimedName file.1 := fun named => same (claimedName_injective named)
          rw [Function.update_of_ne same]
          simp only [List.mem_cons, unlike, false_or]
      rw [fates]
      exact rested

/-- Once all open claims are given back, every file has the fate that its settlement says. -/
theorem Arranged.releaseUnsettled (h : Arranged start files (fateMeanwhile files settlements) folder)
    (holds : Holds p folder (unsettled files settlements)) {order : List FileName}
    (all : order.Perm ((unsettled files settlements).map fun file => claimedName file.1)) :
    Arranged start files (fateOf settlements) (order.foldl p.releaseOne folder) := by
  have distinct : order.Nodup := by
    have claims := holds.distinct.map (f := claimedName) fun _ _ => claimedName_injective
    rw [List.map_map] at claims
    exact all.nodup_iff.mpr claims
  have listed (name : FileName) : claimedName name ∈ order ↔
      name ∈ files.map Prod.fst ∧ verdict? settlements name = none := by
    rw [all.mem_iff, ← mem_unsettled_names, List.mem_map, List.mem_map]
    refine exists_congr fun file => and_congr_right fun _ => ?_
    exact ⟨fun same => claimedName_injective same, fun same => congrArg claimedName same⟩
  have fates : fateOf settlements =
      fun name => if claimedName name ∈ order then .kept else fateMeanwhile files settlements name := by
    funext name
    by_cases out : name ∈ files.map Prod.fst ∧ verdict? settlements name = none
    · rw [if_pos ((listed name).mpr out), fateOf, out.2]
    · rw [if_neg (mt (listed name).mp out), fateMeanwhile_of_not_open out]
  rw [fates]
  apply h.release distinct
  intro claimed member
  obtain ⟨file, inside, rfl⟩ := List.mem_map.mp (all.mem_iff.mp member)
  refine ⟨file, List.mem_of_mem_filter inside, rfl, ?_, holds.claimable file inside, holds.room file inside⟩
  obtain ⟨known, out⟩ := (listed file.1).mp member
  exact fateMeanwhile_of_open known out

/-- Once a pickup has no claims, settling items has no effect. -/
theorem finish_eq_of_unclaimed (unclaimed : p.claimed = []) (folder : Folder) (item : Item) (processed : Bool) :
    p.finish folder item processed = (p, folder) := by
  have none : p.openClaim? item = none := by
    rw [openClaim?, unclaimed]
    cases itemPath? item with
    | none => rfl
    | some path => rfl
  rw [finish, none]

/-! ### One round

One poll, any settlements and the release at the end, with the folder after each of the three. -/

/-- A new pickup polls any directory of files once.  The items that it returns are settled as processed or not, in
any order, some of them more than once and others not at all, and then the open claims are given back, in any
order.  If no file had a name that the pickup uses for those that it returned, the directory is as it was, except
that processed files are gone and files that were not processed are set aside, where the first settlement of an
item counts; no two files get one name.  The claims that are open before they are given back are those of the items
that were not settled, and none is left behind.  Settling an item once more changes nothing, and after the end
settling changes nothing at all. -/
theorem poll_settled_and_released (key directory : String) (limit : Nat) (files : List (FileName × Bytes))
    (settlements : List (Item × Bool)) :
    let p := (create key directory).withLimit limit
    let start := Folder.ofFiles files
    let polled := p.poll start
    let settled := polled.2.1.finishAll polled.2.2 settlements
    let left := start.arranged fun name => (fateOf settlements name).place? name
    (∀ item ∈ polled.1, start.contains (claimedName (nameOf item)) = false ∧
        start.contains (setAsideName (nameOf item)) = false) →
      (∀ settlement ∈ settlements, settlement.1 ∈ polled.1) →
      (start.keys.filterMap fun name => (fateOf settlements name).place? name).Nodup ∧
        settled.1.claimed = (polled.1.filter fun item => (verdict? settlements (nameOf item)).isNone).map
          (fun item => claimedName (nameOf item)) ∧
        (∀ order, order.Perm settled.1.claimed →
          ({ settled.1 with claimed := order } : Pickup).release settled.2 = (p, left)) ∧
        (∀ settlement ∈ settlements, ∀ processed,
          settled.1.finish settled.2 settlement.1 processed = settled) ∧
        ∀ item processed, p.finish left item processed = (p, left) := by
  intro p start polled settled left clear returned
  have plain : start.Plain := Folder.plain_ofFiles files
  obtain ⟨folder, result, taken, stays⟩ := first_poll_eq (p := p) plain rfl
  have room : ∀ file ∈ ((claimableFiles start).take p.limit).filter p.leavesRoom, p.leavesRoom file = true :=
    fun file member => (List.mem_filter.mp member).2
  generalize ((claimableFiles start).take p.limit).filter p.leavesRoom = took at result taken room
  have items : polled = (p.itemsOf took, p.holding took, folder) := result
  have named (file : FileName × Bytes) (member : file ∈ took) : nameOf (p.itemOf file.1 file.2) = file.1 :=
    nameOf_itemOf (isText_of_isClaimable (taken.claimable file member))
  have free : NamesFree start took := by
    intro name known
    obtain ⟨file, member, rfl⟩ := List.mem_map.mp known
    have both := clear (p.itemOf file.1 file.2) (items ▸ List.mem_map_of_mem member)
    rw [named file member] at both
    simpa [contains] using both
  rw [items] at returned
  obtain ⟨changed, finished, holds, places⟩ :=
    finishAll_eq (taken.holds stays room) (taken.arranged stays free) returned
  have after : settled = (p.holding (unsettled took settlements), changed) := by
    rw [← finished]
    show polled.2.1.finishAll polled.2.2 settlements = _
    rw [items]
  have ends {order : List FileName} (all : order.Perm settled.1.claimed) :
      Arranged start took (fateOf settlements) (order.foldl p.releaseOne settled.2) := by
    rw [after] at all ⊢
    exact places.releaseUnsettled holds all
  refine ⟨?_, ?_, fun order all => ?_, ?_, fun item => finish_eq_of_unclaimed rfl left item⟩
  · rw [keys, List.filterMap_map]
    exact (ends (List.Perm.refl _)).nodup_places plain.sorted
  · rw [after, items]
    show (took.filter _).map _ = ((p.itemsOf took).filter _).map _
    rw [itemsOf, List.filter_map, List.map_map]
    have same : took.filter ((fun item => (verdict? settlements (nameOf item)).isNone) ∘
        fun file => p.itemOf file.1 file.2) = unsettled took settlements :=
      List.filter_congr fun file member => by rw [Function.comp_apply, named file member]
    rw [same]
    refine List.map_congr_left fun file member => ?_
    rw [Function.comp_apply, named file (List.mem_of_mem_filter member)]
  · have back := (ends all).eq_arranged plain.sorted
    rw [after] at back ⊢
    exact Prod.ext rfl back
  · intro settlement member processed
    obtain ⟨file, inside, item⟩ := List.mem_map.mp (returned settlement member)
    have known : verdict? settlements file.1 ≠ none := by
      rw [← named file inside, item]
      exact verdict?_ne_none member
    rw [after, ← item]
    apply holds.finish_eq_of_settled (taken.claimable file inside)
    exact fun still => known (mem_unsettled_names.mp still).2

/-- Names with several dots or with what looks like an ending of the pickup, one file that a poll skips and one that
the limit leaves: of the three files returned, one is processed, one is set aside and then settled again as
processed, and one is given back. -/
theorem three_settled_of_five :
    let files := [("a.processing.json", "1"), ("b.v2.tar.gz", "2"), ("c", "3"), ("c.tmp", "4"), ("d", "5")].map
      fun file => (FileName.ofText file.1, Utf8.bytesOf file.2)
    let p := (create "inbox" "/in").withLimit 3
    let start := Folder.ofFiles files
    let item (name body : String) : Item := p.itemOf (FileName.ofText name) (Utf8.bytesOf body)
    let settlements := [(item "b.v2.tar.gz" "2", false), (item "a.processing.json" "1", true),
      (item "b.v2.tar.gz" "2", true)]
    let polled := p.poll start
    let settled := polled.2.1.finishAll polled.2.2 settlements
    let released := settled.1.release settled.2
    released.1 = p ∧
      released.2.keys = ["b.v2.tar.gz.exception", "c", "c.tmp", "d"].map FileName.ofText ∧
      released.2.bodies = ["2", "3", "4", "5"].map Utf8.bytesOf := by
  intro files p start item settlements polled settled released
  obtain ⟨folder, result, -, -⟩ := first_poll_eq (p := p) (Folder.plain_ofFiles files) rfl
  have items : (p.poll start).1 = p.itemsOf (((claimableFiles start).take p.limit).filter p.leavesRoom) := by
    rw [result]
  have clear : ∀ item ∈ (p.poll start).1, start.contains (claimedName (nameOf item)) = false ∧
      start.contains (setAsideName (nameOf item)) = false := by
    rw [items]
    decide +kernel
  have returned : ∀ settlement ∈ settlements, settlement.1 ∈ (p.poll start).1 := by
    rw [items]
    decide +kernel
  obtain ⟨-, -, back, -⟩ := poll_settled_and_released "inbox" "/in" 3 files settlements clear returned
  have whole (q : Pickup) : ({ q with claimed := q.claimed } : Pickup) = q := rfl
  have same := back settled.1.claimed (List.Perm.refl _)
  rw [whole settled.1] at same
  have done : released = (p, start.arranged fun name => (fateOf settlements name).place? name) := same
  rw [done]
  exact ⟨rfl, by decide +kernel, by decide +kernel⟩

end Pickup

end Intake
