/-
Module: Intake.Proofs.Pickup.Renaming
Purpose: Files that are claimed or set aside are not picked up again, and a claim can be undone.
Main exports: Pickup.isClaimablePath_claimedPath, Pickup.isClaimablePath_setAsidePath,
  Pickup.unclaimedPath?_claimedPath, Pickup.route_of_route_claimedPath, Pickup.claims_can_be_undone

An ending is written behind a whole path and taken off the name at its end.  That the two undo each other for every
path, also for one that ends in a slash or a dot, is seen from the last part of the path: the ending makes a name of it.
-/
import Intake.Proofs.Files.Routes
import Intake.Proofs.Pickup.Names

namespace Intake

namespace Pickup

open FilePath

variable {path : FilePath} {front : List FileName} {last ending : FileName}

/-! ### Endings

An ending is written behind the last part of a path.  As it is longer than any part that is not a name, the path has
a name afterwards, whatever it had before. -/

/-- A path with an ending has the name that its last part makes with it. -/
theorem name?_append (split : parts path = front ++ [last]) (long : 2 < ending.length) (plain : slash ∉ ending) :
    name? (path ++ ending) = some (last ++ ending) := by
  obtain ⟨leads, forth⟩ := append_leadsOn last long
  exact name?_of_leadsOn (parts_append split plain) leads forth

/-- The claim of a path is named for its last part. -/
theorem name?_claimedPath (split : parts path = front ++ [last]) : name? (claimedPath path) = some (claimedName last) :=
  name?_append split (by decide) slash_notMem_processingEnding

/-- So is the path under which a file is set aside. -/
theorem name?_setAsidePath (split : parts path = front ++ [last]) :
    name? (setAsidePath path) = some (setAsideName last) :=
  name?_append split (by decide) slash_notMem_exceptionEnding

/-- A claimed file is not picked up. -/
theorem isClaimablePath_claimedPath (path : FilePath) : isClaimablePath (claimedPath path) = false := by
  obtain ⟨front, last, split⟩ := exists_parts path
  rw [isClaimablePath, name?_claimedPath split]
  exact not_isClaimable_claimedName last

/-- A file that was set aside is not picked up. -/
theorem isClaimablePath_setAsidePath (path : FilePath) : isClaimablePath (setAsidePath path) = false := by
  obtain ⟨front, last, split⟩ := exists_parts path
  rw [isClaimablePath, name?_setAsidePath split]
  exact not_isClaimable_setAsideName last

/-! ### Undoing

A path is picked up for the name at its end.  Undoing a claim puts this name in the place of the claimed one,
and then the path leads where it led before. -/

/-- A path is picked up for its last part, unless that leads nowhere. -/
theorem isClaimable_last (split : parts path = front ++ [last]) (claimable : isClaimablePath path = true)
    (leads : leadsOn last = true) : isClaimable last = true := by
  rw [isClaimablePath] at claimable
  rcases Decidable.em (last = [FileName.dot, FileName.dot]) with rfl | forth
  · rw [name?_back split] at claimable
    cases claimable
  · rw [name?_of_leadsOn split leads forth] at claimable
    exact claimable

/-- The last part of a path that is picked up is a text. -/
theorem isText_last (split : parts path = front ++ [last]) (claimable : isClaimablePath path = true) :
    last.IsText := by
  cases leads : leadsOn last with
  | true => exact isText_of_isClaimable (isClaimable_last split claimable leads)
  | false =>
      rcases leadsOn_eq_false_iff.mp leads with rfl | rfl
      · exact ⟨"", by decide⟩
      · exact ⟨".", by decide⟩

/-- Only a path that leads on is picked up: it has a name, or something in front of its last slash. -/
theorem leadsOn_of_isClaimablePath (split : parts path = front ++ [last]) (claimable : isClaimablePath path = true) :
    front ≠ [] ∨ leadsOn last = true := by
  rcases Decidable.em (front = []) with rfl | filled
  · refine Or.inr ?_
    cases leads : leadsOn last with
    | true => rfl
    | false =>
        rw [isClaimablePath, name?, route, split] at claimable
        rcases leadsOn_eq_false_iff.mp leads with rfl | rfl <;> cases claimable
  · exact Or.inl filled

/-- The route of a path that is picked up, and its route while it is claimed, differ in the last name only. -/
theorem route_of_isClaimablePath (split : parts path = front ++ [last]) (claimable : isClaimablePath path = true) :
    route path = ⟨front.head? == some [], (Route.ofParts front).names ++ [last].filter leadsOn⟩ := by
  rw [route, split, ofParts_append (leadsOn_of_isClaimablePath split claimable)]

/-- A claim is in the folder of its file, under the name that the last part makes with the ending. -/
theorem route_claimedPath (split : parts path = front ++ [last]) :
    route (claimedPath path) = ⟨front.head? == some [], (Route.ofParts front).names ++ [claimedName last]⟩ := by
  have leads := leadsOn_claimedName last
  rw [route, claimedPath, parts_append split slash_notMem_processingEnding]
  show Route.ofParts (front ++ [claimedName last]) = _
  rw [ofParts_append (Or.inr leads), List.filter_cons_of_pos leads]
  rfl

/-- The claim of a file is undone by its last part. -/
theorem unclaimedPath?_claimedPath (split : parts path = front ++ [last])
    (claimable : isClaimablePath path = true) :
    unclaimedPath? (claimedPath path) = some (withName (claimedPath path) last) := by
  rw [unclaimedPath?, name?_claimedPath split, Option.bind_some,
    ownName?_claimedName (isText_last split claimable), Option.map_some]

/-- It then leads where it led before. -/
theorem route_withName_claimedPath (split : parts path = front ++ [last]) :
    route (withName (claimedPath path) last) = route path := by
  obtain ⟨leads, forth⟩ : leadsOn (claimedName last) = true ∧ claimedName last ≠ [FileName.dot, FileName.dot] :=
    append_leadsOn last (by decide)
  have plain : slash ∉ last := by
    refine slash_notMem_of_mem_parts (?_ : _ ∈ parts path)
    rw [split]
    exact List.mem_append_right _ List.mem_cons_self
  have claimed : parts (claimedPath path) = front ++ [last ++ processingEnding] :=
    parts_append split slash_notMem_processingEnding
  rw [route_withName claimed leads forth plain, route, split]

/-- If the path ends in its name, this is the path with its own name written anew. -/
theorem withName_claimedPath (split : parts path = front ++ [last]) (claimable : isClaimablePath path = true)
    (leads : leadsOn last = true) :
    (name? path).map (withName path) = some (withName (claimedPath path) last) := by
  have claimed : parts (claimedPath path) = front ++ [last ++ processingEnding] :=
    parts_append split slash_notMem_processingEnding
  have forth : last ≠ [FileName.dot, FileName.dot] := by
    rintro rfl
    rw [isClaimablePath, name?_back split] at claimable
    cases claimable
  have one : name? path = some last := name?_of_leadsOn split leads forth
  have two : name? (claimedPath path) = some (claimedName last) := name?_claimedPath split
  rw [one, Option.map_some, withName, withName, one, two, parent_of_leadsOn split leads,
    parent_of_leadsOn claimed (leadsOn_claimedName last)]
  rfl

/-- Two files that lead to one path while they are claimed led to one path before. -/
theorem route_of_route_claimedPath {one two : FilePath} (first : isClaimablePath one = true)
    (second : isClaimablePath two = true) (same : route (claimedPath one) = route (claimedPath two)) :
    route one = route two := by
  obtain ⟨front, last, split⟩ := exists_parts one
  obtain ⟨front', last', split'⟩ := exists_parts two
  rw [route_claimedPath split, route_claimedPath split'] at same
  injection same with rooted names
  obtain ⟨before, ends⟩ := List.append_inj' names rfl
  have lasts : last = last' := claimedName_injective (List.singleton_inj.mp ends)
  rw [route_of_isClaimablePath split first, route_of_isClaimablePath split' second, rooted, before, lasts]

/-! ### Paths that no claim made

Undoing asks for a name with the ending of a claim.  Any other path is left as it is. -/

theorem unclaimedPath?_eq_none
    (other : ∀ name, name? path = some name → ¬ processingEnding <:+ name) : unclaimedPath? path = none := by
  rw [unclaimedPath?, Option.map_eq_none_iff, Option.bind_eq_none_iff]
  intro name found
  have foreign : processingEnding.isSuffixOf name = false := by
    rw [Bool.eq_false_iff, Ne, List.isSuffixOf_iff_suffix]
    exact other name found
  rw [ownName?]
  split
  · rw [FileName.withoutEnding?, foreign]
    rfl
  · rfl

/-- In particular one that is written without the ending, and could be the path of a file. -/
theorem unclaimedPath?_eq_none_of_not_suffix (other : ¬ processingEnding <:+ path)
    (admitted : admits path false = true) : unclaimedPath? path = none := by
  obtain ⟨front, last, split⟩ := exists_parts path
  have on : leadsOn last = true := by simpa [admits, split] using admitted
  apply unclaimedPath?_eq_none
  intro name found ending
  rcases Decidable.em (last = [FileName.dot, FileName.dot]) with rfl | forth
  · rw [name?_back split] at found
    cases found
  · rw [name?_of_leadsOn split on forth] at found
    injection found with same
    rw [← same] at ending
    exact other (ending.trans (last_suffix split))

/-! ### Names in a folder

A name that is joined to the path of a folder is the last part of the new path, so all that was said about
paths can be said about names. -/

/-- A file in a folder is picked up for its name. -/
theorem isClaimablePath_push (dir : FilePath) {name : FileName} (leads : leadsOn name = true)
    (plain : slash ∉ name) : isClaimablePath (push dir name) = isClaimable name := by
  rcases Decidable.em (name = [FileName.dot, FileName.dot]) with rfl | forth
  · rw [isClaimablePath, name?, route_push dir leads plain, Route.name?]
    simp [isClaimable, isHidden]
  · rw [isClaimablePath, name?_push dir leads plain forth, Option.any_some]

/-- An ending behind a path in a folder is one behind the name. -/
theorem push_append (dir : FilePath) (name ending : FileName) : push dir name ++ ending = push dir (name ++ ending) := by
  rw [push, push]
  split
  · exact List.append_assoc dir name ending
  · rw [List.append_assoc, List.cons_append]

/-- A claim in a folder is undone by its name. -/
theorem unclaimedPath?_push (dir : FilePath) {name : FileName} (leads : leadsOn name = true)
    (plain : slash ∉ name) : unclaimedPath? (push dir name) = (ownName? name).map (withName (push dir name)) := by
  rcases Decidable.em (name = [FileName.dot, FileName.dot]) with rfl | forth
  · obtain ⟨front, split, -, -⟩ := exists_parts_push dir plain
    have none : ownName? [FileName.dot, FileName.dot] = none := by decide
    rw [unclaimedPath?, name?_back split, none]
    rfl
  · rw [unclaimedPath?, name?_push dir leads plain forth, Option.bind_some]

/-- Files in a folder are picked up, given endings and given back by their names. -/
theorem paths_of_names (dir : FilePath) {name : FileName} (leads : leadsOn name = true) (plain : slash ∉ name) :
    isClaimablePath (push dir name) = isClaimable name ∧
      claimedPath (push dir name) = push dir (claimedName name) ∧
      setAsidePath (push dir name) = push dir (setAsideName name) ∧
      unclaimedPath? (push dir name) = (ownName? name).map (withName (push dir name)) :=
  ⟨isClaimablePath_push dir leads plain, push_append dir name processingEnding, push_append dir name exceptionEnding,
    unclaimedPath?_push dir leads plain⟩

/-! ### All paths

The parts above put together, for every path, and once more for the names in one folder. -/

/-- Every path that is picked up, whatever bytes it is made of: with the ending of a claim, or of a file that was set
aside, it is not picked up any more, and undoing the claim leads back to it, to the byte if it is written without idle
parts at its end.  Different paths have different claimed paths.  A path whose name does not end as that of a claimed
file has no path without a claim, and neither has one that is written without this ending and could be that of a
file.  Of the files in a folder all this is decided by their names. -/
theorem claims_can_be_undone :
    (∀ path, isClaimablePath path = true →
      isClaimablePath (claimedPath path) = false ∧ isClaimablePath (setAsidePath path) = false ∧
        ∃ own, unclaimedPath? (claimedPath path) = some own ∧ route own = route path ∧
          (admits path false = true → (name? path).map (withName path) = some own)) ∧
      (∀ one two, isClaimablePath one = true → isClaimablePath two = true →
        route (claimedPath one) = route (claimedPath two) → route one = route two) ∧
      (∀ path, (∀ name, name? path = some name → ¬ processingEnding <:+ name) → unclaimedPath? path = none) ∧
      (∀ path, ¬ processingEnding <:+ path → admits path false = true → unclaimedPath? path = none) ∧
      ∀ dir name, leadsOn name = true → slash ∉ name →
        isClaimablePath (push dir name) = isClaimable name ∧
          claimedPath (push dir name) = push dir (claimedName name) ∧
          setAsidePath (push dir name) = push dir (setAsideName name) ∧
          unclaimedPath? (push dir name) = (ownName? name).map (withName (push dir name)) := by
  refine ⟨fun path claimable => ?_, fun one two => route_of_route_claimedPath, fun path => unclaimedPath?_eq_none,
    fun path => unclaimedPath?_eq_none_of_not_suffix, fun dir name => paths_of_names dir⟩
  obtain ⟨front, last, split⟩ := exists_parts path
  refine ⟨isClaimablePath_claimedPath path, isClaimablePath_setAsidePath path, withName (claimedPath path) last,
    unclaimedPath?_claimedPath split claimable, route_withName_claimedPath split, fun admitted => ?_⟩
  have leads : leadsOn last = true := by simpa [admits, split] using admitted
  exact withName_claimedPath split claimable leads

/-- A name with dots at its end, in a folder that is spelled in two ways, and a file that nobody has claimed. -/
theorem dotted_name_is_given_back :
    let path := Utf8.bytesOf "/in/a.tar.."
    let spelled := Utf8.bytesOf "/in/./a.tar.."
    isClaimablePath path = true ∧ isClaimablePath spelled = true ∧ isClaimablePath (claimedPath path) = false ∧
      (∃ own, unclaimedPath? (claimedPath path) = some own ∧ route own = route path) ∧
      route path = route spelled ∧ unclaimedPath? path = none ∧
      isClaimablePath (push (Utf8.bytesOf "/in") (Utf8.bytesOf "a.tar..")) = isClaimable (Utf8.bytesOf "a.tar..") := by
  intro path spelled
  have facts : isClaimablePath path = true ∧ isClaimablePath spelled = true ∧
      route (claimedPath path) = route (claimedPath spelled) ∧ ¬ processingEnding <:+ path ∧
      admits path false = true := by
    decide +kernel
  obtain ⟨claimable, too, alike, foreign, admitted⟩ := facts
  obtain ⟨undone, apart, -, unclaimed, named⟩ := claims_can_be_undone
  obtain ⟨claimed, -, own, found, same, -⟩ := undone path claimable
  exact ⟨claimable, too, claimed, ⟨own, found, same⟩, apart path spelled claimable too alike,
    unclaimed path foreign admitted, (named _ _ (by decide) (by decide)).1⟩

end Pickup

end Intake
