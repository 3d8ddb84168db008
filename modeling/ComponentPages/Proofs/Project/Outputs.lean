import ComponentPages.Proofs.Outcome
import ComponentPages.Proofs.Project.Sources

/-!
The outputs of a build. What a build works from is settled before it writes anything; then it writes the pages, the
stylesheet and the copies of the static files, in this order, so an output is what remains at its place unless an output of a
later kind lands there.
-/
namespace ComponentPages

open Work Workspace

variable {before after : Workspace}

/-! ### What a build works from -/

namespace Project

end Project

/-- What a build works from once it has read the settings, the components and the names of all sources. -/
structure Plan where
  root : Location
  settings : Settings
  manifest : Manifest
  workshop : Workshop

namespace Plan

variable (plan : Plan)

def pageTarget (route : SourceFile) : Path := plan.settings.distPath.joinNames route.below

def stylesheetTarget : Path := plan.settings.distPath.joinText plan.settings.stylesheetPath

def copyTarget (file : SourceFile) : Path :=
  (plan.settings.distPath.joinText plan.settings.directories.static).joinNames file.below

def targets : List Path :=
  plan.manifest.routes.map plan.pageTarget ++ plan.stylesheetTarget :: plan.manifest.staticFiles.map plan.copyTarget

/-- The page of a route, from the text of its source. -/
def page (directory : Location) (route : SourceFile) (source : Text) : Except Failure Text :=
  let (result, gathered) := compileFresh plan.workshop plan.settings.nestingLimit [] source
  result.map fun html =>
    if plan.settings.injectAssets then
      PageAssembly.assemble ((Path.link? directory route.relative plan.settings.stylesheetPath).getD [])
        (plan.workshop.texts.pageScript gathered.scripts gathered.usesSignals) html
    else html

def report : BuildReport where
  root := plan.root
  dist := plan.settings.distPath
  routes := plan.manifest.routes.map plan.pageTarget
  stylesheet := plan.stylesheetTarget
  components := plan.workshop.registry.size
  staticFiles := plan.manifest.staticFiles.length

end Plan

namespace Project

/-- Settles what a build works from. -/
def planAt (root : Location) : Work Plan := do
  let settings ← SettingsFile.load (Path.ofLocation root)
  info ("Compiling project at " ++ (Path.ofLocation root).render)
  let manifest ← Manifest.collect settings
  let registry ← loadRegistry manifest
  info ("Loaded " ++ Text.ofNat registry.size ++ " component(s)")
  let texts ← scriptTexts settings
  pure { root, settings, manifest, workshop := { registry, strict := settings.strict, texts } }

def plan (written : Text) : Work Plan := do
  let root ← Work.locate (← Work.expandHome (Path.ofText written))
  if ← Work.isDirectory (Path.ofLocation root) then planAt root else throw (.projectMissing written)

end Project

namespace Plan

variable {plan : Plan}

/-- The page of a route as it is written, from the files as they are. -/
def pageContents? (plan : Plan) (workspace : Workspace) (route : SourceFile) : Option Bytes :=
  (workspace.text? route.path).bind fun source =>
    (plan.page workspace.directory route source).toOption.map Bytes.ofText

def pageOutput (plan : Plan) (workspace : Workspace) (route : SourceFile) : Location × Bytes :=
  (Path.locate workspace.directory (plan.pageTarget route), (plan.pageContents? workspace route).getD [])

def stylesheetOutput (plan : Plan) (workspace : Workspace) : Location × Bytes :=
  (Path.locate workspace.directory plan.stylesheetTarget, Bytes.ofText plan.workshop.registry.stylesheet)

def copyOutput (plan : Plan) (workspace : Workspace) (file : SourceFile) : Location × Bytes :=
  (Path.locate workspace.directory (plan.copyTarget file), (workspace.contents? file.path).getD [])

/-- Where directories may be made for the outputs. -/
def ways (plan : Plan) (directory : Location) : List Location :=
  plan.targets.flatMap fun target => target.parent.way directory

/-- A plan whose outputs stay clear of what is read for them, of directories and of the log. -/
structure IsClear (plan : Plan) (workspace : Workspace) : Prop where
  /-- No source lies in the output directory. -/
  disjoint : ∀ source ∈ plan.manifest.routes ++ plan.manifest.staticFiles,
    ¬ Path.locate workspace.directory plan.settings.distPath <+: Path.locate workspace.directory source.path
  /-- Where names lead out of the output directory, neither the stylesheet nor a copy lands on a static file. -/
  unread : ∀ source ∈ plan.manifest.staticFiles,
    ∀ target ∈ plan.stylesheetTarget :: plan.manifest.staticFiles.map plan.copyTarget,
      Path.locate workspace.directory target ≠ Path.locate workspace.directory source.path
  /-- No copy goes where a directory is or is made for another output. -/
  free : ∀ file ∈ plan.manifest.staticFiles,
    workspace.files.get? (Path.locate workspace.directory (plan.copyTarget file)) ≠ some .directory ∧
      Path.locate workspace.directory (plan.copyTarget file) ∉ plan.ways workspace.directory
  /-- The log goes to no source and to no output. -/
  log : ∀ log ∈ workspace.logFile,
    ∀ path ∈ (plan.manifest.routes ++ plan.manifest.staticFiles).map SourceFile.path ++ plan.targets,
      log.location ≠ Path.locate workspace.directory path

instance (plan : Plan) (workspace : Workspace) : Decidable (plan.IsClear workspace) :=
  decidable_of_iff (_ ∧ _ ∧ _ ∧ _)
    ⟨fun all => ⟨all.1, all.2.1, all.2.2.1, all.2.2.2⟩,
      fun clear => ⟨clear.disjoint, clear.unread, clear.free, clear.log⟩⟩

namespace IsClear

variable (clear : plan.IsClear before)

include clear

end IsClear

/-- The outputs of a build, in the order in which they are written. -/
def outputs (plan : Plan) (workspace : Workspace) : List (Location × Bytes) :=
  plan.manifest.routes.map (plan.pageOutput workspace) ++
    plan.stylesheetOutput workspace :: plan.manifest.staticFiles.map (plan.copyOutput workspace)

end Plan

end ComponentPages
