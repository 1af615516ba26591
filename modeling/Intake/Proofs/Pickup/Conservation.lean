/-
Module: Intake.Proofs.Pickup.Conservation
Purpose: When the contents that arrive at a directory are all still there or processed at the end.
Main exports: Pickup.Session.Accounts, Pickup.Session.Accounts.after,
  Pickup.Session.bodies_kept_iff_names_free, Pickup.Session.second_set_aside_replaces_first
-/
import Intake.Proofs.Pickup.Ledger

namespace Intake

namespace Pickup

open Table

variable {p : Pickup} {initial : Folder} {s : Session}
  {processed aside held : List (FileName × Bytes)} {file : FileName × Bytes}

/-- Deleting an element and deleting its image are the same where the image tells elements apart. -/
theorem erase_map_of_eq {α β : Type} [BEq α] [LawfulBEq α] [BEq β] [LawfulBEq β] (f : α → β)
    {a : α} {l : List α} (apart : ∀ b ∈ l, f b = f a → b = a) : (l.map f).erase (f a) = (l.erase a).map f := by
  induction l with
  | nil => rfl
  | cons b rest ih =>
      obtain ⟨first, others⟩ := List.forall_mem_cons.mp apart
      rw [List.map_cons]
      by_cases same : b = a
      · rw [same, List.erase_cons_head, List.erase_cons_head]
      · rw [List.erase_cons_tail (by simpa using fun named => same (first named)),
          List.erase_cons_tail (by simpa using same), List.map_cons, ih others]

/-- The item of a held file is one among the items of the held files, and dropping it drops the file. -/
theorem Holds.erase_itemsOf {folder : Folder} (h : Holds p folder held) (member : file ∈ held) :
    (p.itemsOf held).erase (p.itemOf file.1 file.2) = p.itemsOf (held.erase file) := by
  refine erase_map_of_eq (fun file : FileName × Bytes => p.itemOf file.1 file.2) ?_
  intro other here same
  have names := congrArg nameOf same
  rw [nameOf_itemOf (isText_of_isClaimable (h.claimable other here)),
    nameOf_itemOf (isText_of_isClaimable (h.claimable file member))] at names
  exact h.eq_of_name_eq here member names

namespace Session

/-- The items of a session are those of files that the ledger accounts for. -/
structure Accounts (p : Pickup) (initial : Folder) (s : Session)
    (processed aside held : List (FileName × Bytes)) : Prop where
  pickup : s.pickup = p.holding held
  pendingItems : s.pending = p.itemsOf held
  processedItems : s.processed = p.itemsOf processed
  setAsideItems : s.setAside = p.itemsOf aside
  claimable : ∀ file ∈ processed ++ aside ++ held, isClaimable file.1 = true
  holds : Holds p s.folder held
  ledger : Ledger initial s.folder s.arrived processed aside held

/-- Before anything happens, nothing is claimed, processed or set aside. -/
theorem accounts_opening (key directory : String) (limit : Nat) (files : List (FileName × Bytes)) :
    Accounts ((create key directory).withLimit limit) (.ofFiles files)
      (opening key directory limit files) [] [] [] where
  pickup := rfl
  pendingItems := rfl
  processedItems := rfl
  setAsideItems := rfl
  claimable := by simp
  holds := ⟨Folder.plain_ofFiles files, by simp, List.nodup_nil, by simp, by simp⟩
  ledger := .opening _

namespace Accounts

/-- A file that arrives is nobody's yet. -/
theorem arrive (h : Accounts p initial s processed aside held) (name : FileName) (body : Bytes) :
    Accounts p initial (s.arrive name body) processed aside held := by
  rw [Session.arrive]
  split
  · next admitted =>
      rw [Bool.and_eq_true, Bool.not_eq_true'] at admitted
      obtain ⟨claimable, free⟩ := admitted
      refine { h with holds := ?_, ledger := h.ledger.arrive h.holds.plain claimable free body }
      refine { h.holds with plain := h.holds.plain.put name body, kept := ?_ }
      intro file member
      rw [find?_put, if_neg (ne_claimedName_of_isClaimable claimable file.1).symm]
      exact h.holds.kept file member
  · exact h

/-- A poll adds the files that it claims to those that are held. -/
theorem poll (h : Accounts p initial s processed aside held) :
    ∃ held, Accounts p initial s.poll processed aside held := by
  rw [Session.poll]
  split
  · next rested =>
      have nothing : held = [] := by
        rw [h.pendingItems, itemsOf, List.map_eq_nil_iff] at rested
        exact rested
      subst nothing
      have step {held : List (FileName × Bytes)} {folder : Folder} {file : FileName × Bytes}
          (holds : Holds p folder held) (ledger : Ledger initial folder s.arrived processed aside held)
          (claimable : isClaimable file.1 = true) (fresh : file.1 ∉ held.map Prod.fst)
          (found : folder.find? file.1 = some (.file file.2))
          (_ : p.leavesRoom file = true) :
          Ledger initial (folder.move file.1 (claimedName file.1) file.2) s.arrived processed aside
            (held ++ [file]) := ledger.claim holds.plain file claimable found fresh
      obtain ⟨changed, polled, holds, ledger⟩ := h.holds.poll_eq (p := p) step h.ledger (by simp)
      rw [← h.pickup] at polled
      rw [polled]
      refine ⟨_, { h with pickup := rfl, pendingItems := rfl, claimable := ?_, holds, ledger }⟩
      intro file member
      rcases List.mem_append.mp member with old | new
      · exact h.claimable file (List.mem_append_left _ old)
      · exact holds.claimable file new
  · exact ⟨held, h⟩

/-- Finishing an item that is pending settles its file, and finishing any other does nothing. -/
theorem finish (h : Accounts p initial s processed aside held) (item : Item) (done : Bool) :
    ∃ processed aside held, Accounts p initial (s.finish item done) processed aside held := by
  rw [Session.finish]
  split
  · next out =>
      rw [h.pendingItems] at out
      obtain ⟨file, member, rfl⟩ := List.mem_map.mp out
      have claimable := h.holds.claimable file member
      have left : s.pending.erase (p.itemOf file.1 file.2) = p.itemsOf (held.erase file) := by
        rw [h.pendingItems, h.holds.erase_itemsOf member]
      cases done with
      | true =>
          have settled : s.pickup.finish s.folder (p.itemOf file.1 file.2) true =
              (p.holding (held.erase file), Table.erase s.folder (claimedName file.1)) := by
            rw [h.pickup, h.holds.finish_eq_of_processed member]
          refine ⟨processed ++ [file], aside, held.erase file, ?_⟩
          simp only [settled, if_true]
          refine ⟨rfl, left, ?_, h.setAsideItems, ?_, h.holds.remove member,
            h.ledger.remove h.holds member⟩
          · rw [h.processedItems, itemsOf, itemsOf, List.map_append]
            rfl
          · intro other here
            exact h.claimable other
              ((returned_perm_of_processed processed aside member).mem_iff.mp here)
      | false =>
          have settled : s.pickup.finish s.folder (p.itemOf file.1 file.2) false =
              (p.holding (held.erase file),
                s.folder.move (claimedName file.1) (setAsideName file.1) file.2) := by
            rw [h.pickup, h.holds.finish_eq_of_failed member]
          refine ⟨processed, aside ++ [file], held.erase file, ?_⟩
          simp only [settled, Bool.false_eq_true, if_false]
          refine ⟨rfl, left, h.processedItems, ?_, ?_, h.holds.setAside member,
            h.ledger.setAside h.holds member⟩
          · rw [h.setAsideItems, itemsOf, itemsOf, List.map_append]
            rfl
          · intro other here
            exact h.claimable other
              ((returned_perm_of_aside processed aside member).mem_iff.mp here)
  · exact ⟨processed, aside, held, h⟩

/-- Whatever happens next, the items are still accounted for. -/
theorem advance (h : Accounts p initial s processed aside held) (happening : Happening) :
    ∃ processed aside held, Accounts p initial (s.advance happening) processed aside held := by
  cases happening with
  | arrive name body => exact ⟨processed, aside, held, h.arrive name body⟩
  | poll =>
      obtain ⟨held, polled⟩ := h.poll
      exact ⟨processed, aside, held, polled⟩
  | finish item done => exact h.finish item done

/-- So they are after any sequence of happenings. -/
theorem after (h : Accounts p initial s processed aside held) (happenings : List Happening) :
    ∃ processed aside held, Accounts p initial (s.after happenings) processed aside held := by
  induction happenings generalizing s processed aside held with
  | nil => exact ⟨processed, aside, held, h⟩
  | cons happening rest ih =>
      obtain ⟨_, _, _, next⟩ := h.advance happening
      exact ih next

/-- Nothing is lost up to the end exactly if no new name was taken, those given back included. -/
theorem bodies_kept_iff (h : Accounts p initial s processed aside held) :
    (s.close.bodies ++ s.processed.map Item.body).Perm (initial.bodies ++ s.arrived) ↔
      Unobstructed initial processed aside held ∧
        ∀ file ∈ held, s.folder.contains file.1 = false := by
  obtain ⟨lost, kept, known⟩ := h.ledger.balance
  obtain ⟨replaced, released, free⟩ := h.holds.bodies_release
  have closed : s.close =
      (held.map fun file => claimedName file.1).foldl p.releaseOne s.folder := by
    rw [close, h.pickup]
    rfl
  rw [← closed] at released
  have whole : (initial.bodies ++ s.arrived).Perm
      (s.close.bodies ++ s.processed.map Item.body ++ (lost ++ replaced)) := by
    rw [h.processedItems, map_body_itemsOf]
    rw [List.perm_iff_count] at kept released ⊢
    intro a
    have before := kept a
    have after := released a
    simp only [List.count_append] at before after ⊢
    omega
  rw [← known, ← free, ← List.append_eq_nil_iff]
  -- Where the two sides have the same length, nothing is left that could be lost.
  constructor
  · intro same
    have lengths := (same.trans whole).length_eq
    simp only [List.length_append] at lengths
    apply List.eq_nil_of_length_eq_zero
    rw [List.length_append]
    omega
  · intro nothing
    rw [nothing, List.append_nil] at whole
    exact whole.symm

end Accounts

/-- Whatever happens at a directory, its contents and those that arrived are at the end in the directory
or processed, each as often as before, exactly if four things hold: at the beginning there was no file
under the name of a later claim, no two files of one name were set aside, at the beginning there was no
file under the name of one set aside, and nothing has arrived under the name of a file given back. -/
theorem bodies_kept_iff_names_free (key directory : String) (limit : Nat)
    (files : List (FileName × Bytes)) (happenings : List Happening) :
    let start := opening key directory limit files
    let s := start.after happenings
    (s.close.bodies ++ s.processed.map Item.body).Perm (start.folder.bodies ++ s.arrived) ↔
      (∀ item ∈ s.returned, start.folder.contains (claimedName (nameOf item)) = false) ∧
        (s.setAside.map nameOf).Nodup ∧
        (∀ item ∈ s.setAside, start.folder.contains (setAsideName (nameOf item)) = false) ∧
        ∀ item ∈ s.pending, s.folder.contains (nameOf item) = false := by
  intro start s
  obtain ⟨processed, aside, held, h⟩ :=
    (accounts_opening key directory limit files).after happenings
  have settled (file : FileName × Bytes) (member : file ∈ aside) : isClaimable file.1 = true :=
    h.claimable file (List.mem_append_left _ (List.mem_append_right _ member))
  have returned : s.returned.map nameOf = (processed ++ aside ++ held).map Prod.fst := by
    rw [Session.returned, h.processedItems, h.setAsideItems, h.pendingItems]
    rw [itemsOf, itemsOf, itemsOf, ← List.map_append, ← List.map_append]
    exact map_nameOf_itemsOf h.claimable
  have asides : s.setAside.map nameOf = aside.map Prod.fst := by
    rw [h.setAsideItems]
    exact map_nameOf_itemsOf settled
  have pending : s.pending.map nameOf = held.map Prod.fst := by
    rw [h.pendingItems]
    exact map_nameOf_itemsOf h.holds.claimable
  refine h.bodies_kept_iff.trans ?_
  constructor
  · rintro ⟨clear, free⟩
    refine ⟨?_, asides ▸ clear.once, ?_, ?_⟩
    · intro item member
      apply clear.claims
      rw [← returned]
      exact List.mem_map_of_mem member
    · intro item member
      apply clear.asides
      rw [← asides]
      exact List.mem_map_of_mem member
    · intro item member
      have known : nameOf item ∈ held.map Prod.fst := pending ▸ List.mem_map_of_mem member
      obtain ⟨file, here, same⟩ := List.mem_map.mp known
      rw [← same]
      exact free file here
  · rintro ⟨claims, once, names, free⟩
    refine ⟨⟨?_, asides ▸ once, ?_⟩, ?_⟩
    · intro name known
      rw [← returned] at known
      obtain ⟨item, member, rfl⟩ := List.mem_map.mp known
      exact claims item member
    · intro name known
      rw [← asides] at known
      obtain ⟨item, member, rfl⟩ := List.mem_map.mp known
      exact names item member
    · intro file member
      have known : file.1 ∈ s.pending.map nameOf := pending ▸ List.mem_map_of_mem member
      obtain ⟨item, here, same⟩ := List.mem_map.mp known
      rw [← same]
      exact free item here

/-- Two files of one name, both set aside: the second replaces the first, which is lost although no one
has processed it. -/
theorem second_set_aside_replaces_first :
    let name := FileName.ofText "a.json"
    let first := Utf8.bytesOf "first"
    let second := Utf8.bytesOf "second"
    let start := opening "inbox" "/in" 32 []
    let s := start.after [
      .arrive name first, .poll, .finish (start.pickup.itemOf name first) false,
      .arrive name second, .poll, .finish (start.pickup.itemOf name second) false]
    s.arrived = [first, second] ∧ s.processed = [] ∧ s.pending = [] ∧ s.close.bodies = [second] := by
  decide +kernel

end Session

end Pickup

end Intake
