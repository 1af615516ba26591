/-
Module: Intake.Service.Clearing
Purpose: Polls directories until nothing in them can be claimed any more.
Main exports: Pickup.settle, Pickup.clear, Pickup.clearIn
-/
import Intake.Files.Tree
import Intake.Pickup.Basic
import Intake.Receiver.Basic

namespace Intake

namespace Pickup

/-- Hands the items of a poll over and settles each by the answer. -/
def settle (handle : ItemHandler) (p : Pickup) (folder : Folder) (items : List Item) :
    Pickup × Folder :=
  items.foldl (fun (p, folder) item => p.finish folder item (handle item).isOk) (p, folder)

/-- At most `fuel` polls, up to the first one that finds nothing. -/
def clearFrom (handle : ItemHandler) : (fuel : Nat) → Pickup → Folder → Pickup × Folder
  | 0, p, folder => (p, folder)
  | fuel + 1, p, folder =>
    let (items, p, folder) := p.poll folder
    if items.isEmpty then (p, folder)
    else
      let (p, folder) := p.settle handle folder items
      clearFrom handle fuel p folder

/-- Polls until nothing is found.  Each poll before takes at least one file away. -/
def clear (handle : ItemHandler) (p : Pickup) (folder : Folder) : Pickup × Folder :=
  clearFrom handle (folder.size + 1) p folder

/-- Clears the directory of a pickup in a tree; one that is missing is left alone. -/
def clearIn (handle : ItemHandler) (tree : FileTree) (p : Pickup) : FileTree :=
  match tree.readFolder p.directory with
  | .error _ => tree
  | .ok folder => tree.putFolder p.directory (p.clear handle folder).2

end Pickup

end Intake
