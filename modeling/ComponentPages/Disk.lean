import ComponentPages.Workspace

/-!
The part of the machine's files that a command works on. It is loaded before the command, and what the command has
changed is saved after it.
-/
namespace ComponentPages

namespace Disk

def fileName (location : Location) : String := String.ofList (Path.ofLocation location).render

def nanoseconds (time : IO.FS.SystemTime) : Int := time.sec * 1000000000 + time.nsec.toNat

/-- The kind of what is at a location, and the time of its last change. -/
def look (location : Location) : IO (Option (IO.FS.FileType × Int)) := do
  let top ← IO.currentDir
  match ← (top / fileName location).metadata.toBaseIO with
  | .ok data => pure (some (data.type, nanoseconds data.modified))
  | .error _ => pure none

/-- The entries of a directory that are no links to directories elsewhere. -/
def namesIn (location : Location) : IO (List Text) := do
  let top ← IO.currentDir
  let found ← (top / fileName location).readDir
  let plain ← found.toList.filterM fun entry => do
    pure ((← entry.path.symlinkMetadata).type != .symlink || (← entry.path.metadata).type != .dir)
  pure (plain.map fun entry => entry.fileName.toList)

/-- What is at a location and below it. -/
partial def below (location : Location) : IO (List (Location × Entry)) := do
  match ← look location with
  | none => pure []
  | some (.dir, _) =>
    let deeper ← (← namesIn location).mapM fun name => below (location ++ [name])
    pure ((location, .directory) :: deeper.flatten)
  | some (_, time) =>
    let contents ← IO.FS.readBinFile (fileName location)
    pure [(location, .file contents.toList time)]

/-- The directories on the way to a location, itself among them. -/
def onWay (location : Location) : IO (List (Location × Entry)) := do
  let ways := (List.range (location.length + 1)).map fun length => location.take length
  let found ← ways.filterM fun way => do pure ((← look way).any fun (type, _) => type == .dir)
  pure (found.map fun way => (way, .directory))

/-- Loads all that is at given locations, with the directories on the way there and on the way to the working
directory. -/
def load (directory : Location) (locations : List Location) : IO FileTree := do
  let apart := locations.foldl (fun apart location =>
    if apart.any fun other => (Path.below? other location).isSome then apart else apart ++ [location]) []
  let ways ← (directory :: apart).mapM onWay
  let entries ← apart.mapM below
  pure { entries := entries.flatten ++ ways.flatten }

/-- Saves what is new or changed, directories before what lies in them. -/
def save (before after : FileTree) : IO Unit := do
  let changed := after.entries.filter fun (location, entry) => before.get? location ≠ some entry
  let ordered := changed.mergeSort fun (location, _) (other, _) => location.length ≤ other.length
  ordered.forM fun (location, entry) =>
    match entry with
    | .directory => IO.FS.createDir (fileName location)
    | .file contents _ => IO.FS.writeBinFile (fileName location) ⟨contents.toArray⟩

/-- A time later than that of any file. -/
def clockAfter (files : FileTree) : Int :=
  files.entries.foldl (fun clock (_, entry) =>
    match entry with
    | .file _ time => max clock (time + 1)
    | .directory => clock) 0

end Disk

end ComponentPages
