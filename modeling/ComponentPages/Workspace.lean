import ComponentPages.FileTree
import ComponentPages.Log

/-!
The workspace of a command: the files, the directory it is run in, and the log it writes. Operations on files
act on a workspace and fail as the file system does. Each write takes a moment, so no two writes have one time.
-/
namespace ComponentPages

/-- Where a log goes besides the console. -/
structure LogFile where
  location : Location
  verbose : Bool

structure Workspace where
  files : FileTree := {}
  directory : Location := []
  home : Option Path := none
  /-- The time of the next write. -/
  clock : Int := 0
  /-- The time of day as the lines of a log file show it. -/
  stamp : Text := []
  log : List LogRecord := []
  logFile : Option LogFile := none

abbrev Work := ExceptT Fault (StateM Workspace)

namespace Work

def run {α : Type} (work : Work α) (workspace : Workspace) : Except Fault α × Workspace :=
  (ExceptT.run work).run workspace

def refuse {α : Type} (refusal : Refusal) (path : Path) : Work α := throw (.file refusal path.render)

/-- What the file system says to an operation on its files as they are. -/
def ask {α : Type} (question : Workspace → Except Refusal α) : Work (Except Refusal α) := do
  pure (question (← get))

def need {α : Type} (path : Path) (question : Workspace → Except Refusal α) : Work α := do
  match ← ask question with
  | .ok answer => pure answer
  | .error refusal => refuse refusal path

/-- Replaces what is at a location. -/
def put (location : Location) (entry : Int → Entry) : Work Unit :=
  modify fun workspace => { workspace with
    files := workspace.files.put location (entry workspace.clock)
    clock := workspace.clock + 1 }

/-- What a path leads to, if anything. Only a name that is too long is a fault. -/
def find? (path : Path) : Work (Option Entry) := do
  match ← ask fun workspace => workspace.files.stat workspace.directory path with
  | .ok (_, entry) => pure (some entry)
  | .error .nameTooLong => refuse .nameTooLong path
  | .error _ => pure none

def isDirectory (path : Path) : Work Bool := do pure ((← find? path) = some .directory)

/-- Replaces `~` at the start of a path by the home directory. -/
def expandHome (path : Path) : Work Path := do
  match path.root, path.parts with
  | [], ['~'] :: rest =>
    match (← get).home with
    | some home => pure (home.joinNames rest)
    | none => throw .noHome
  | [], ('~' :: _) :: _ => throw .noHome
  | _, _ => pure path

/-- The location of a path, whether there is something or not. -/
def locate (path : Path) : Work Location := do
  if path.parts.any fun name => name.any (· == '\x00') then refuse .nullCharacter path
  pure (Path.locate (← get).directory path)

def read (path : Path) : Work Bytes := do
  match ← need path fun workspace => workspace.files.stat workspace.directory path with
  | (_, .file contents _) => pure contents
  | (_, .directory) => refuse .isADirectory path

/-- Reads a file as text with unified line breaks. -/
def readText (path : Path) : Work Text := do
  match Bytes.toText? (← read path) with
  | some text => pure (Bytes.unifyBreaks text)
  | none => throw .notText

/-- Where a file can be written. -/
def target (workspace : Workspace) (path : Path) : Except Refusal Location := do
  let location ← workspace.files.walk workspace.directory path
  match workspace.files.get? location with
  | some .directory => .error .isADirectory
  | _ => .ok location

def write (path : Path) (contents : Bytes) : Work Unit := do
  let location ← need path fun workspace => target workspace path
  put location (.file contents)

def writeText (path : Path) (text : Text) : Work Unit := write path (Bytes.ofText text)

/-- Where a directory can be made. -/
def vacancy (workspace : Workspace) (path : Path) : Except Refusal Location := do
  let location ← workspace.files.walk workspace.directory path
  if path.parts.getLast? = some ['.', '.'] then .error .exists
  else
    match workspace.files.get? location with
    | some _ => .error .exists
    | none => .ok location

/-- Makes one directory, unless the file system refuses. -/
def makeDirectory (path : Path) : Work (Except Refusal Unit) := do
  match ← ask fun workspace => vacancy workspace path with
  | .error refusal => pure (.error refusal)
  | .ok location =>
    put location fun _ => .directory
    pure (.ok ())

/-- A refusal does not matter where a directory is there already. -/
def settleFor (refusal : Refusal) (path : Path) : Work Unit := do
  if refusal = .nullCharacter then refuse refusal path
  if !(← isDirectory path) then refuse refusal path

/-- Makes a directory and those above it, given the names of the path from the last one on. -/
def makeDirectoriesUp (root : Text) : List Text → Work Unit
  | [] => do
    let path : Path := ⟨root, []⟩
    match ← makeDirectory path with
    | .ok () => pure ()
    | .error refusal => settleFor refusal path
  | name :: above => do
    let path : Path := ⟨root, (name :: above).reverse⟩
    match ← makeDirectory path with
    | .ok () => pure ()
    | .error .missing =>
      makeDirectoriesUp root above
      match ← makeDirectory path with
      | .ok () => pure ()
      | .error .missing => refuse .missing path
      | .error refusal => settleFor refusal path
    | .error refusal => settleFor refusal path

/-- Makes a directory and those above it; they may be there already. -/
def makeDirectories (path : Path) : Work Unit := makeDirectoriesUp path.root path.parts.reverse

/-- Writes a text file, with the directories it lies in. -/
def placeText (path : Path) (text : Text) : Work Unit := do
  makeDirectories path.parent
  writeText path text

/-- Copies a file with its time. A target that is a directory receives the file under its name. -/
def copy (source target : Path) : Work Unit := do
  let target ← if ← isDirectory target then pure (target.joinNames [source.name]) else pure target
  let (from_, entry) ← need source fun workspace => workspace.files.stat workspace.directory source
  let workspace ← get
  match workspace.files.walk workspace.directory target with
  | .ok location => if location = from_ then throw (.sameFile source.render target.render)
  | .error _ => pure ()
  match entry with
  | .directory => refuse .isADirectory source
  | .file contents time =>
    let location ← need target fun workspace => Work.target workspace target
    put location fun _ => .file contents time

/-- The files below a directory in the order of a walk; none if there is no such directory. -/
def filesBelow (path : Path) : Work (List (List Text × Bytes × Int)) := do
  match ← ask fun workspace => workspace.files.stat workspace.directory path with
  | .ok (location, .directory) => pure ((← get).files.filesBelow location)
  | _ => pure []

/-- The contents of a log file with a line more. -/
def appended (entry : Option Entry) (line : Text) : Int → Entry :=
  match entry with
  | some (.file contents _) => .file (contents ++ Bytes.ofText (line ++ ['\n']))
  | _ => .file (Bytes.ofText (line ++ ['\n']))

/-- Writes a record to the log. -/
def record (level : LogLevel) (stage message : Text) : Work Unit := do
  let entry : LogRecord := ⟨level, stage, message⟩
  modify fun workspace => { workspace with log := workspace.log ++ [entry] }
  match (← get).logFile with
  | none => pure ()
  | some file =>
    if entry.isShown file.verbose then
      put file.location (appended ((← get).files.get? file.location) (entry.fileLine (← get).stamp))

end Work

end ComponentPages
