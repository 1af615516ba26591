/-
Module: Intake.Proofs.Pickup.Polling
Purpose: Exactly which files a poll of a folder of files claims, and in which order.
Main exports: Pickup.Taken.claimableFiles_eq, Pickup.Taken.claim, Pickup.Taken.poll_eq, Pickup.first_poll_eq

A poll lists the claimable files in the order of their names.  Those that it takes are claimable no longer, so the
next poll lists the others in the same order.
-/
import Intake.Proofs.Pickup.Interruption

namespace Intake

namespace Pickup

open Table

variable {p : Pickup} {start folder : Folder} {files : List (FileName × Bytes)} {file : FileName × Bytes}

/-- Once some files are claimed, the others are left to be listed. -/
theorem Taken.claimableFiles_eq (h : Taken start files folder) (sorted : start.Sorted) :
    claimableFiles folder = (claimableFiles start).filter fun file => decide (file.1 ∉ files.map Prod.fst) := by
  have left : (⟨(claimableFiles start).filter fun file => decide (file.1 ∉ files.map Prod.fst)⟩ :
      Table Bytes FileName).Sorted :=
    (pairwise_claimableFiles sorted).filter _
  have listed : (⟨claimableFiles folder⟩ : Table Bytes FileName).Sorted := pairwise_claimableFiles h.sorted
  apply congrArg Table.entries (Sorted.ext listed left _)
  intro name
  apply Option.ext
  intro body
  rw [listed.find?_eq_some_iff, left.find?_eq_some_iff, List.mem_filter, decide_eq_true_iff,
    mem_claimableFiles h.sorted, mem_claimableFiles sorted]
  constructor
  · rintro ⟨claimable, found⟩
    have fresh : name ∉ files.map Prod.fst := by
      intro known
      obtain ⟨file, member, rfl⟩ := List.mem_map.mp known
      rw [h.gone file member] at found
      cases found
    rw [h.find?_of_fresh claimable fresh] at found
    exact ⟨⟨claimable, found⟩, fresh⟩
  · rintro ⟨⟨claimable, found⟩, fresh⟩
    exact ⟨claimable, (h.find?_of_fresh claimable fresh).trans found⟩

/-- Where all files that were taken leave room, a pickup may hold their claims. -/
theorem Taken.holds (h : Taken start files folder) (plain : folder.Plain)
    (room : ∀ file ∈ files, p.leavesRoom file = true) : Holds p folder files :=
  ⟨plain, h.claimable, h.distinct, room, h.claimed⟩

/-- One more file that is claimed is taken as it was at the start. -/
theorem Taken.claim (holds : Holds p folder files) (h : Taken start files folder)
    (claimable : isClaimable file.1 = true) (fresh : file.1 ∉ files.map Prod.fst)
    (found : folder.find? file.1 = some (.file file.2))
    (room : p.leavesRoom file = true) :
    Taken start (files ++ [file]) (folder.move file.1 (claimedName file.1) file.2) := by
  have there := (h.find?_of_fresh claimable fresh).symm.trans found
  apply h.rename claimable fresh there
  exact holds.plain.rename_eq found (hasRoom_of_leavesRoom room) room
    (ne_claimedName_of_isClaimable claimable file.1)

/-- A poll takes, among the first files that are left, those that leave room. -/
theorem Taken.poll_eq (h : Taken start files folder) (plain : folder.Plain)
    (room : ∀ file ∈ files, p.leavesRoom file = true) :
    let took := ((claimableFiles folder).take p.limit).filter p.leavesRoom
    ∃ changed : Folder, (p.holding files).poll folder = (p.itemsOf took, p.holding (files ++ took), changed) ∧
      Taken start (files ++ took) changed ∧ changed.Plain := by
  obtain ⟨changed, result, holds, taken⟩ := (h.holds plain room).poll_eq Taken.claim h h.gone
  exact ⟨changed, result, taken, holds.plain⟩

/-- The first poll of a pickup, as long as it holds nothing. -/
theorem first_poll_eq (plain : start.Plain) (unclaimed : p.claimed = []) :
    let took := ((claimableFiles start).take p.limit).filter p.leavesRoom
    ∃ changed : Folder, p.poll start = (p.itemsOf took, p.holding took, changed) ∧
      Taken start took changed ∧ changed.Plain := by
  have nothing : p.holding [] = p := by rw [holding, List.map_nil, ← unclaimed]
  have polled := (taken_nil plain.sorted).poll_eq (p := p) plain (by simp)
  rwa [nothing] at polled

end Pickup

end Intake
