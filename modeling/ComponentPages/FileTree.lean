import ComponentPages.Bytes
import ComponentPages.Fault

/-!
A tree of files and directories, kept as a map from locations to what is there. The top of the tree is always a
directory. Paths are walked name by name: what stands before a name must be a directory, also when the name goes up.
-/
namespace ComponentPages

inductive Entry where
  | directory
  /-- A file with the time of its last change, in nanoseconds. -/
  | file (contents : Bytes) (time : Int)
deriving DecidableEq

structure FileTree where
  entries : List (Location × Entry) := []

namespace FileTree

def get? (tree : FileTree) (location : Location) : Option Entry :=
  if location.isEmpty then some .directory else tree.entries.lookup location

/-- Puts an entry at a location, in the place of the one there. -/
def put (location : Location) (entry : Entry) (tree : FileTree) : FileTree where
  entries := (location, entry) :: tree.entries.filter fun (other, _) => other ≠ location

/-- Removes what is at a location and below it. -/
def remove (location : Location) (tree : FileTree) : FileTree where
  entries := tree.entries.filter fun (other, _) => (Path.below? location other).isNone

/-- The bytes of a name may not be more than this. -/
def nameLimit : Nat := 255

/-- Follows names from a location. The last of them may name nothing yet. -/
def follow (tree : FileTree) (location : Location) : List Text → Except Refusal Location
  | [] => .ok location
  | name :: rest =>
    match tree.get? location with
    | none => .error .missing
    | some (.file _ _) => .error .notADirectory
    | some .directory =>
      if name = ['.', '.'] then follow tree location.dropLast rest
      else if nameLimit < (Bytes.ofText name).length then .error .nameTooLong
      else follow tree (location ++ [name]) rest

/-- Where a path leads, seen from a directory. -/
def walk (tree : FileTree) (directory : Location) (path : Path) : Except Refusal Location :=
  if path.parts.any fun name => name.any (· == '\x00') then .error .nullCharacter
  else tree.follow (if path.isAbsolute then [] else directory) path.parts

/-- What is at the end of a path. -/
def stat (tree : FileTree) (directory : Location) (path : Path) : Except Refusal (Location × Entry) := do
  let location ← tree.walk directory path
  match tree.get? location with
  | some entry => .ok (location, entry)
  | none => .error .missing

/-- Files of a directory come before those of its subdirectories; otherwise the order is that of the names. -/
def walkBefore : (names others : List Text) → Bool
  | [], _ => true
  | _ :: _, [] => false
  | [name], [other] => Text.atMost name other
  | [_], _ :: _ :: _ => true
  | _ :: _ :: _, [_] => false
  | name :: names, other :: others => if name = other then walkBefore names others else Text.before name other

/-- The files below a location, each with the names on the way to it. -/
def filesBelow (tree : FileTree) (location : Location) : List (List Text × Bytes × Int) :=
  let found := tree.entries.filterMap fun (place, entry) =>
    match entry, Path.below? location place with
    | .file contents time, some (name :: names) => some (name :: names, contents, time)
    | _, _ => none
  found.mergeSort fun (names, _) (others, _) => walkBefore names others

end FileTree

end ComponentPages
