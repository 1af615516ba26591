/-
Module: Intake.Files.Tree
Purpose: A tree of folders seen from a working folder, with paths that may pass through links.
Main exports: FileTree, FileTree.ofWorking, FileTree.resolve, FileTree.read, FileTree.readFolder, FileTree.putFolder

A path that is too long leads nowhere, whatever it spells; a name on the way that is too long is found nowhere.
-/
import Intake.Files.Folder

namespace Intake

/-- All files from the root on, and the names on the way to the working folder. -/
structure FileTree where
  root : Folder
  working : List FileName

namespace FileTree

/-- The content of the working folder. -/
def workingFolder (tree : FileTree) : Folder :=
  match tree.root.folderAt tree.working with
  | .ok folder => folder
  | .error _ => .empty

/-- How often links are followed on one path. -/
def linkLimit : Nat := 40

/-- The names of a path.  A slash at the end names the folder itself, like a dot. -/
def namesOf (path : FilePath) : List FileName :=
  let parts := FilePath.parts path
  let named := parts.filter (· ≠ [])
  if parts.getLast? = some [] ∧ named ≠ [] then named ++ [[FileName.dot]] else named

def isAbsolute (path : FilePath) : Bool := path.head? == some FilePath.slash

/-- A tree that holds nothing but a working folder at an absolute path. -/
def ofWorking (path : String) (folder : Folder) : FileTree :=
  let working := namesOf (Utf8.bytesOf path)
  ⟨Folder.putAt .empty working (.folder folder), working⟩

/-- Walks on from a folder without links on the way to it.  `links` bounds how many are still followed. -/
def walk (root : Folder) (links : Nat) (here : List FileName) :
    List FileName → Except FileError (List FileName)
  | [] => .ok here
  | name :: rest =>
    match root.folderAt here with
    | .error e => .error e
    | .ok folder =>
      if name = [FileName.dot] then walk root links here rest
      else if name = [FileName.dot, FileName.dot] then walk root links here.dropLast rest
      else if FileName.lengthLimit < name.length then .error .nameTooLong
      else
        match folder.find? name with
        | none => .error .notFound
        | some (.link target) =>
          match links with
          | 0 => .error .tooManyLinks
          | links + 1 =>
            walk root links (if isAbsolute target then [] else here) (namesOf target ++ rest)
        | some _ => walk root links (here ++ [name]) rest
termination_by names => (links, names.length)

/-- The place that a path leads to, without links. -/
def resolve (tree : FileTree) (path : String) : Except FileError (List FileName) :=
  let path := Utf8.bytesOf path
  if path = [] then .error .notFound
  else if FilePath.isTooLong path then .error .nameTooLong
  else walk tree.root linkLimit (if isAbsolute path then [] else tree.working) (namesOf path)

/-- The content of the file at a place without links. -/
def readPlace (root : Folder) (place : List FileName) : Except FileError Bytes :=
  match place.getLast? with
  | none => .error .isDirectory
  | some name => (root.folderAt place.dropLast).bind fun folder => folder.read name

/-- The content of the file that a path leads to. -/
def read (tree : FileTree) (path : String) : Except FileError Bytes :=
  (tree.resolve path).bind (readPlace tree.root)

/-- The folder that a path leads to. -/
def readFolder (tree : FileTree) (path : String) : Except FileError Folder :=
  (tree.resolve path).bind tree.root.folderAt

/-- The tree with another content of the folder that a path leads to; if there is none, nothing
changes. -/
def putFolder (tree : FileTree) (path : String) (folder : Folder) : FileTree :=
  match tree.resolve path with
  | .error _ => tree
  | .ok [] => { tree with root := folder }
  | .ok place => { tree with root := tree.root.putAt place (.folder folder) }

end FileTree

end Intake
