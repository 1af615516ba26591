/-
Module: Intake.Files.Path
Purpose: Paths as bytes: where they lead, the name at their end, and another name in its place.
Main exports: FilePath, FilePath.parts, FilePath.Route, FilePath.route, FilePath.name?, FilePath.push,
  FilePath.parent, FilePath.withName, FilePath.admits, FilePath.isTooLong, FilePath.hasRoom

Two paths count as one if they have the same route: a slash too many, a dot on the way, and slashes and dots behind
the last name make no difference.
-/
import Intake.Files.Name

namespace Intake

/-- A path to a file or a folder. -/
abbrev FilePath := Bytes

namespace FilePath

def slash : UInt8 := 0x2F

/-- What stands between the slashes. -/
def parts (path : FilePath) : List FileName := path.splitOn slash

/-- Whether a part of a path leads on.  One that is empty or a single dot stays where it is. -/
def leadsOn (part : FileName) : Bool := part != [] && part != [FileName.dot]

/-- Where a path leads: whether it begins at the root, and the names on the way. -/
structure Route where
  rooted : Bool
  names : List FileName
  deriving Repr, DecidableEq

/-- The route through some parts.  In front of a slash an empty first part is the root; a dot there names the
working folder and is kept. -/
def Route.ofParts : List FileName → Route
  | [] => ⟨false, []⟩
  | first :: rest => ⟨first == [] && !rest.isEmpty, [first].filter (· != []) ++ rest.filter leadsOn⟩

def route (path : FilePath) : Route := .ofParts (parts path)

/-- The name at the end of a route.  The root, the working folder and a step back have none. -/
def Route.name? (r : Route) : Option FileName :=
  r.names.getLast?.filter fun name => name != [FileName.dot] && name != [FileName.dot, FileName.dot]

/-- The name of what a path leads to. -/
def name? (path : FilePath) : Option FileName := (route path).name?

/-- The parts from the last one back that leads on.  The parts are given in reverse; the first of all stays, since
it may be the root or the working folder. -/
def dropIdle : List FileName → List FileName
  | [] => []
  | [first] => [first]
  | part :: before :: others =>
    if leadsOn part then part :: before :: others else dropIdle (before :: others)

/-- The path through some parts; the root alone is a slash. -/
def ofParts : List FileName → FilePath
  | [[]] => [slash]
  | parts => [slash].intercalate parts

/-- The path of the folder in which the name at the end of a path stands. -/
def parent (path : FilePath) : FilePath := ofParts (dropIdle (dropIdle (parts path).reverse).tail).reverse

/-- A path that leads on to a name. -/
def push (path : FilePath) (name : FileName) : FilePath :=
  if path = [] ∨ path.getLast? = some slash then path ++ name else path ++ slash :: name

/-- A path with another name at its end; one that ends in no name leads on to it. -/
def withName (path : FilePath) (name : FileName) : FilePath :=
  if (name? path).isSome then push (parent path) name else push path name

/-- Whether an entry of a folder can be renamed or removed by a path.  A slash at the end asks for a folder, and a
dot there is always refused. -/
def admits (path : FilePath) (isFolder : Bool) : Bool :=
  (parts path).getLast?.any fun last => leadsOn last || (isFolder && last == [])

/-- The greatest number of bytes that a path may have. -/
def lengthLimit : Nat := 4095

def isTooLong (path : FilePath) : Bool := decide (lengthLimit < path.length)

/-- Whether an entry of the folder at a path can have a name: neither the name nor the path to it is too long. -/
def hasRoom (path : FilePath) (name : FileName) : Bool :=
  decide (name.length ≤ FileName.lengthLimit) && !isTooLong (push path name)

example : name? (Utf8.bytesOf "/in/a.json/.") = some (Utf8.bytesOf "a.json") ∧
    name? (Utf8.bytesOf "/in/..") = none := by decide

example : withName (Utf8.bytesOf "/in//a.json") (Utf8.bytesOf "b") = Utf8.bytesOf "/in/b" := by
  decide

end FilePath

end Intake
