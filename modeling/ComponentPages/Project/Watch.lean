import ComponentPages.Project.Build
import ComponentPages.Watcher

/-!
Watching a project: it is built once, and again whenever a file of it changes. The output directory is not
watched. A build that fails is reported and does not end the watch.
-/
namespace ComponentPages

namespace Project

/-- The times of the last changes of all watched files, by path. -/
abbrev Fingerprint := List (Text × Int)

/-- Whether a file below a root lies in a directory that is ignored. The root itself is always watched. -/
def isIgnored (root : Location) (ignored : Option Location) (below : List Text) : Bool :=
  match ignored.bind (Path.below? root) with
  | none | some [] => false
  | some directory =>
    match Path.below? directory below with
    | some (_ :: _) => true
    | _ => false

def fingerprint (root : Location) (ignored : Option Location) : Work Fingerprint := do
  let files ← Work.filesBelow (Path.ofLocation root)
  let watched := files.filter fun (below, _) => !isIgnored root ignored below
  let times := watched.map fun (below, _, time) => (Path.slashed below, time)
  pure (times.mergeSort fun (path, _) (other, _) => Text.atMost path other)

def watchStage : Text := "watcher"

/-- Whether a fault in a build is reported; any other ends the watch. -/
def isReported (fault : Fault) : Bool := fault.isProject || fault.isFile || fault = .noHome

/-- How a watch reports. -/
abbrev Reporter (m : Type → Type) := LogLevel → Text → m Unit

/-- Builds, and reports how it went. -/
def rebuildWith {m : Type → Type} [Monad m] [MonadExceptOf Fault m] {α : Type} (report : Reporter m) (build : m α) :
    m Bool := do
  let outcome ← tryCatch (do discard build; pure none) fun fault =>
    if isReported fault then pure (some fault) else throw fault
  match outcome with
  | none =>
    report .info "Built successfully"
    pure true
  | some fault =>
    report .error ("Compilation failed: " ++ fault.message)
    pure false

/-- Builds again after a change. -/
def rebuildChangedWith {m : Type → Type} [Monad m] [MonadExceptOf Fault m] {α : Type} (report : Reporter m)
    (root : Location) (build : m α) : m Unit := do
  report .info ("Change detected in " ++ (Path.ofLocation root).render ++ ", recompiling")
  discard (rebuildWith report build)

def report : Reporter Work := fun level message => Work.record level watchStage message

def rebuild {α : Type} (build : Work α) : Work Bool := rebuildWith report build

def rebuildChanged {α : Type} (root : Location) (build : Work α) : Work Unit := rebuildChangedWith report root build

/-- A running watch: the watched directory, what is ignored in it, the time between polls, and what was seen last. -/
structure Watch where
  root : Location
  ignored : Option Location
  interval : Seconds
  watcher : Watcher Fingerprint

namespace Watch

/-- The build of a watch from its root. -/
def buildFrom (root : Location) : Work BuildReport := Project.build (Path.ofLocation root).render

def fingerprint (watch : Watch) : Work Fingerprint := Project.fingerprint watch.root watch.ignored

/-- Begins to watch the project at a path, with a first build. -/
def start (written : Text) : Work Watch := do
  let root ← Work.locate (← Work.expandHome (Path.ofText written))
  let settings ← SettingsFile.load (Path.ofLocation root)
  let ignored ← Work.locate settings.distPath
  report .info ("Watching " ++ (Path.ofLocation root).render ++ " for changes")
  let watcher ← Watcher.start (Project.fingerprint root (some ignored)) (discard (rebuild (buildFrom root)))
  pure { root, ignored, interval := settings.interval, watcher }

/-- Builds again if something has changed since the last look. -/
def poll (watch : Watch) : Work Watch := do
  let watcher ← watch.watcher.poll watch.fingerprint (rebuildChanged watch.root (buildFrom watch.root))
  pure { watch with watcher }

def stop (watch : Watch) : Work Unit :=
  report .info ("Stopped watching " ++ (Path.ofLocation watch.root).render)

/-- Polls between naps, each of which may change files, until the polls are used up. A watch that has no more
naps is interrupted. Gives the number of naps begun. -/
def pollBetween (polls : Option Int) : (naps : List (Work Unit)) → Nat → Watch → Work Nat
  | naps, count, watch =>
    if polls.any (· ≤ (count : Int)) then pure count
    else
      match naps with
      | [] => do
        watch.stop
        pure (count + 1)
      | nap :: naps => do
        nap
        pollBetween polls naps (count + 1) (← watch.poll)

end Watch

/-- Watches the project at a path. Gives the length of a nap and how many were begun. -/
def watch (written : Text) (polls : Option Int) (naps : List (Work Unit)) : Work (Seconds × Nat) := do
  let watch ← Watch.start written
  pure (watch.interval, ← watch.pollBetween polls naps 0)

end Project

end ComponentPages
