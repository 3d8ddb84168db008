import ComponentPages.Expansion
import ComponentPages.PageAssembly
import ComponentPages.Project.Manifest

/-!
Building a project: every route is compiled and written to the output directory, then the stylesheet of all
components, then copies of the static files.
-/
namespace ComponentPages

/-- What a build made. -/
structure BuildReport where
  root : Location
  dist : Path
  routes : List Path
  stylesheet : Path
  components : Nat
  staticFiles : Nat

namespace Project

def stage : Text := "orchestrator"

def info (message : Text) : Work Unit := Work.record .info stage message

def debug (message : Text) : Work Unit := Work.record .debug stage message

/-- Reports failures of the compiler under the name of a source. -/
def reported {α : Type} (source : Text) (result : Except Failure α) : Work α :=
  match result with
  | .ok value => pure value
  | .error failure => throw (.compile ((Diagnostic.ofFailure failure).withSource source))

/-- Loads a component and adds it to a registry. -/
def loadComponent (root : Location) (registry : Registry) (file : SourceFile) : Work Registry := do
  let display := Path.displayFrom root file.path
  let source ← Work.readText file.path
  let component ← reported display (Component.load file.name source (some display) true)
  let registry ← reported display (registry.add component)
  debug ("Loaded component " ++ component.name ++ " from " ++ display)
  pure registry

def loadRegistry (manifest : Manifest) : Work Registry :=
  manifest.components.foldlM (loadComponent manifest.root) {}

/-- A text that a project puts in place of a bundled script. -/
def override? (templates : Path) (name : Text) : Work (Option Text) := do
  let path := templates.joinText name
  match ← Work.ask fun workspace => workspace.files.stat workspace.directory path with
  | .ok (_, .file _ _) => some <$> Work.readText path
  | _ => pure none

def scriptTexts (settings : Settings) : Work ScriptTexts := do
  match settings.templates with
  | none => pure {}
  | some templates =>
    pure {
      runtime := ← override? templates "signal_runtime.js"
      fetch := ← override? templates "fetch.js.j2"
      page := ← override? templates "page_script.html.j2" }

/-- Runs a compilation, and puts its notes into the log, also when it fails. -/
def logged {α : Type} (compilation : Compile α) (page : Page) : Work (Except Failure α × Page) := do
  let (result, page) := Compile.run compilation page
  page.notes.forM fun note => Work.record .debug note.stage note.message
  pure (result, page)

/-- Compiles a route's text to its finished page. -/
def compileRoute (settings : Settings) (workshop : Workshop) (route : SourceFile) : Work Text := do
  let source ← Work.readText route.path
  let stack := ExpansionStack.empty settings.nestingLimit
  let (result, page) ← logged (compilePage workshop stack [] true source) {}
  let html ← reported (Path.displayFrom settings.root route.path) result
  if settings.injectAssets then
    let directory := (← get).directory
    let href := (Path.link? directory route.relative settings.stylesheetPath).getD []
    pure (PageAssembly.assemble href (workshop.texts.pageScript page.scripts page.usesSignals) html)
  else pure html

/-- Compiles a route and writes its page. -/
def writeRoute (settings : Settings) (workshop : Workshop) (route : SourceFile) : Work Path := do
  let html ← compileRoute settings workshop route
  let target := settings.distPath.joinNames route.below
  Work.placeText target html
  debug ("Wrote " ++ target.render)
  pure target

def writeStylesheet (settings : Settings) (registry : Registry) : Work Path := do
  let css := registry.stylesheet
  let target := settings.distPath.joinText settings.stylesheetPath
  Work.placeText target css
  info ("Wrote " ++ Text.ofNat (Bytes.ofText css).length ++ " bytes of CSS to " ++ target.render)
  pure target

def copyStatic (settings : Settings) (file : SourceFile) : Work Unit := do
  let target := (settings.distPath.joinText settings.directories.static).joinNames file.below
  Work.makeDirectories target.parent
  Work.copy file.path target

/-- Builds the project at a location. -/
def buildAt (root : Location) : Work BuildReport := do
  let settings ← SettingsFile.load (Path.ofLocation root)
  info ("Compiling project at " ++ (Path.ofLocation root).render)
  let manifest ← Manifest.collect settings
  let registry ← loadRegistry manifest
  info ("Loaded " ++ Text.ofNat registry.size ++ " component(s)")
  let workshop : Workshop := { registry, strict := settings.strict, texts := ← scriptTexts settings }
  let routes ← manifest.routes.mapM (writeRoute settings workshop)
  info ("Wrote " ++ Text.ofNat routes.length ++ " route(s) to " ++ settings.distPath.render)
  let stylesheet ← writeStylesheet settings registry
  manifest.staticFiles.forM (copyStatic settings)
  if !manifest.staticFiles.isEmpty then
    info ("Copied " ++ Text.ofNat manifest.staticFiles.length ++ " static file(s)")
  pure {
    root
    dist := settings.distPath
    routes
    stylesheet
    components := registry.size
    staticFiles := manifest.staticFiles.length }

/-- Builds the project at a path. -/
def build (written : Text) : Work BuildReport := do
  let root ← Work.locate (← Work.expandHome (Path.ofText written))
  if ← Work.isDirectory (Path.ofLocation root) then buildAt root else throw (.projectMissing written)

/-- Starts a new project at a path. What is there already is an obstacle, unless it may be written over. -/
def create (written : Text) (force : Bool) : Work Location := do
  let root ← Work.locate (← Work.expandHome (Path.ofText written))
  let path := Path.ofLocation root
  if (← Work.find? path).isSome && !force then throw (.projectExists written)
  info ("Initializing project at " ++ path.render)
  let standard : Directories := {}
  (Scaffold.directories standard).forM fun name => Work.makeDirectories (path.joinText name)
  (Scaffold.files standard).forM fun (name, text) => Work.placeText (path.joinText name) text
  (Scaffold.files standard).forM fun (name, _) => debug ("Wrote " ++ (Path.ofText name).render)
  pure root

end Project

end ComponentPages
