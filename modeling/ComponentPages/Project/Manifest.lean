import ComponentPages.Component
import ComponentPages.Digest
import ComponentPages.Project.Settings

/-!
The sources of a project: its components, its routes and its static files, in the order of a walk through their
directories. Some directories and files are never sources.
-/
namespace ComponentPages

/-- A source file: its path, the names below its directory, its name and the digest of its contents. -/
structure SourceFile where
  path : Path
  below : List Text
  name : Text
  digest : Text

namespace SourceFile

def relative (file : SourceFile) : Text := Path.slashed file.below

end SourceFile

structure Manifest where
  root : Location
  components : List SourceFile
  routes : List SourceFile
  staticFiles : List SourceFile

namespace Manifest

def excludedDirectories : List String := [".git", ".hg", ".svn", "node_modules", "__pycache__"]

def excludedFiles : List String := [".DS_Store", "Thumbs.db"]

/-- Whether a file with given names on the way to it is excluded. -/
def isExcluded (below : List Text) : Bool :=
  let names := below.map String.ofList
  names.dropLast.any excludedDirectories.contains || names.getLast?.any excludedFiles.contains

/-- The files below a directory. -/
def filesIn (directory : Path) : Work (List SourceFile) := do
  let found ← if ← Work.isDirectory directory then Work.filesBelow directory else pure []
  pure ((found.filter fun (below, _) => !isExcluded below).map fun (below, contents, _) => {
    path := directory.joinNames below
    below
    name := (Path.stemAndSuffix (below.getLast?.getD [])).1
    digest := Digest.sha256 contents })

def isTemplate (file : SourceFile) : Bool := (Path.stemAndSuffix file.path.name).2 = ".html"

def requireDirectory (path : Path) : Work Unit := do
  if !(← Work.isDirectory path) then throw (.ofFailure (.directoryMissing path.render))

/-- The sources of a project. The names of its routes are kebab-case. -/
def collect (settings : Settings) : Work Manifest := do
  requireDirectory settings.componentsPath
  requireDirectory settings.routesPath
  let components := (← filesIn settings.componentsPath).filter isTemplate
  let routes := (← filesIn settings.routesPath).filter isTemplate
  match routes.find? fun route => !isKebabCase route.name with
  | some route => throw (.ofFailure (.routeName route.relative route.name))
  | none => pure ()
  let staticFiles ← filesIn settings.staticPath
  pure { root := settings.root, components, routes, staticFiles }

/-- The sources of the project at a path, by the settings found there. -/
def scan (written : Text) : Work Manifest := do
  let root ← Work.locate (← Work.expandHome (Path.ofText written))
  let path := Path.ofLocation root
  match ← Work.find? path with
  | none => throw (.projectMissing written)
  | some (.file _ _) => throw (.projectNotADirectory written)
  | some .directory => collect (← SettingsFile.load path)

end Manifest

end ComponentPages
