import ComponentPages.Text.Basic

/-!
Paths of files. A path is a root and the names on the way from it; the name `..` stays in a path until the path
is resolved to a location, which is the list of names from the top of the file tree.
-/
namespace ComponentPages

/-- A place in the file tree: the names on the way down to it. -/
abbrev Location := List Text

structure Path where
  /-- Empty for a relative path, else one slash; exactly two leading slashes are kept as two. -/
  root : Text := []
  parts : List Text := []
deriving DecidableEq

namespace Path

/-- The names between slashes, without empty ones and without `.`. -/
def namesIn (text : Text) : List Text :=
  (Text.pieces '/' text).filter fun name => !name.isEmpty && name != ['.']

def ofText (text : Text) : Path where
  root :=
    match (text.takeWhile (· == '/')).length with
    | 0 => []
    | 2 => ['/', '/']
    | _ => ['/']
  parts := namesIn text

def ofLocation (location : Location) : Path := ⟨['/'], location⟩

def isAbsolute (path : Path) : Bool := !path.root.isEmpty

/-- The names joined by slashes. -/
def slashed (names : List Text) : Text := List.intercalate ['/'] names

def render (path : Path) : Text :=
  if path.root.isEmpty && path.parts.isEmpty then ['.'] else path.root ++ slashed path.parts

/-- Goes on from a path; an absolute path replaces what precedes it. -/
def join (path further : Path) : Path :=
  if further.isAbsolute then further else ⟨path.root, path.parts ++ further.parts⟩

/-- As `join`, for a path given by its text. -/
def joinText (path : Path) (further : Text) : Path := join path (ofText further)

def joinNames (path : Path) (names : List Text) : Path := ⟨path.root, path.parts ++ names⟩

/-- The last name; none for a root. -/
def name (path : Path) : Text := path.parts.getLast?.getD []

def parent (path : Path) : Path := { path with parts := path.parts.dropLast }

/-- Walks on from a location, where `..` goes up and stops at the top. -/
def descend (location : Location) (names : List Text) : Location :=
  names.foldl (fun location name => if name = ['.', '.'] then location.dropLast else location ++ [name]) location

/-- The location that a path names, seen from a directory. -/
def locate (directory : Location) (path : Path) : Location :=
  descend (if path.isAbsolute then [] else directory) path.parts

/-- Splits a file name before its last dot, unless the dot begins or ends the name. -/
def stemAndSuffix (name : Text) : Text × Text :=
  let suffix := name.reverse.takeWhile (· != '.')
  let stem := name.reverse.dropWhile (· != '.') |>.drop 1
  if suffix.isEmpty || stem.isEmpty then (name, []) else (stem.reverse, '.' :: suffix.reverse)

/-- What is left of a location below a directory. -/
def below? : (directory location : Location) → Option (List Text)
  | [], names => some names
  | _ :: _, [] => none
  | name :: directory, other :: location => if name = other then below? directory location else none

/-- Shows a path relative to a directory when its names lead there first, else in full. -/
def displayFrom (directory : Location) (path : Path) : Text :=
  match if path.root = ['/'] then below? directory path.parts else none with
  | some names => render ⟨[], names⟩
  | none => path.render

/-- The directory that a path text names a file in. -/
def directoryOf (text : Text) : Text :=
  let head := (text.reverse.dropWhile (· != '/')).reverse
  if head.all (· == '/') then head else (head.reverse.dropWhile (· == '/')).reverse

/-- How many names two locations have in common at their start. -/
def sharedLength : (here there : Location) → Nat
  | name :: here, other :: there => if name = other then sharedLength here there + 1 else 0
  | _, _ => 0

/-- The way from one directory to a location: up to the last directory in common, then down. -/
def route (here there : Location) : List Text :=
  let shared := sharedLength here there
  List.replicate (here.length - shared) ['.', '.'] ++ there.drop shared

/-- The link from a page to a stylesheet, both given relative to the same directory. An empty stylesheet path
has no link. -/
def link? (directory : Location) (page stylesheet : Text) : Option Text :=
  if stylesheet.isEmpty then none
  else
    let way := route (locate directory (ofText (directoryOf page))) (locate directory (ofText stylesheet))
    some (render ⟨[], way⟩)

end Path

end ComponentPages
