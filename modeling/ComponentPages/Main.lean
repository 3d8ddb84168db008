import ComponentPages.CommandLine.Run
import ComponentPages.Disk
import ComponentPages.Service.Message
import Std.Time.Format

/-!
The program. It loads the files that a command works on, runs the command on them and saves what has changed. A
service answers one request on its standard streams, so it can stand behind any listener.
-/
namespace ComponentPages

namespace Program

def usage : Text := Scaffold.ofLines [
  "usage: gtml [-v] [--log-file FILE] init [--force] [PATH]",
  "       gtml [-v] [--log-file FILE] compile [--watch] [PATH]",
  "       gtml [-v] [--log-file FILE] watch [PATH]",
  "       gtml [-v] serve [--host HOST] [--port PORT]"]

def print (text : Text) : IO Unit := IO.print (String.ofList text)

def complain (text : Text) : IO Unit := IO.eprint (String.ofList text)

/-- The workspace that holds what is at given locations. -/
def openWorkspace (locations : List Location) : IO Workspace := do
  let directory := (Path.ofText (← IO.currentDir).toString.toList).parts
  let home := (← IO.getEnv "HOME").map fun text => Path.ofText text.toList
  let now ← Std.Time.PlainDateTime.now
  let files ← Disk.load directory locations
  pure {
    files
    directory
    home
    clock := Disk.clockAfter files
    stamp := (now.format "uuuu-MM-dd HH:mm:ss,SSS").toList }

/-- The directories that settings name. -/
def placesOf (settings : Settings) (directory : Location) : List Location :=
  let paths := [settings.componentsPath, settings.routesPath, settings.distPath, settings.staticPath]
  (paths ++ settings.templates.toList).map (Path.locate directory)

/-- The workspace of the project at a path, with all that its settings name. -/
def projectWorkspace (written : Text) (others : List Location) : IO Workspace := do
  let plain ← openWorkspace others
  match (Work.run (do Work.locate (← Work.expandHome (Path.ofText written))) plain).1 with
  | .error _ => pure plain
  | .ok root =>
    let near ← openWorkspace (root :: (root.dropLast ++ [Scaffold.settingsName]) :: others)
    match (Work.run (SettingsFile.load (Path.ofLocation root)) near).1 with
    | .error _ => pure near
    | .ok settings => openWorkspace (root :: placesOf settings near.directory ++ others)

/-- The workspace that an invocation works on. -/
def workspaceOf (invocation : CommandLine.Invocation) : IO Workspace := do
  let directory := (Path.ofText (← IO.currentDir).toString.toList).parts
  let others := (invocation.logFile.map fun written => Path.locate directory (Path.ofText written)).toList
  match invocation.command with
  | .init path _ | .compile path | .watch path => projectWorkspace path others
  | .serve _ _ => openWorkspace others

/-- Runs work on a workspace, shows its log and saves its changes. -/
def carryOut {α : Type} (verbose : Bool) (work : Work α) (workspace : Workspace) : IO (Except Fault α) := do
  let (result, after) := Work.run work workspace
  complain (LogRecord.consoleText verbose after.log)
  match ← (Disk.save workspace.files after.files).toBaseIO with
  | .ok () => pure result
  | .error problem => pure (.error (.device problem.toString.toList))

def failed (fault : Fault) : IO UInt32 := do
  complain (fault.message ++ ['\n'])
  pure 1

/-- Looks for changes again and again. -/
partial def keepPolling (invocation : CommandLine.Invocation) (watch : Project.Watch) : IO UInt32 := do
  IO.sleep (min (watch.interval.multiple 1000) 4294967295).toUInt32
  let work : Work Project.Watch := do
    CommandLine.prepare invocation
    watch.poll
  match ← carryOut invocation.verbose work (← workspaceOf invocation) with
  | .ok watch => keepPolling invocation watch
  | .error fault => failed fault

def watch (invocation : CommandLine.Invocation) (path : Text) : IO UInt32 := do
  let work : Work Project.Watch := do
    CommandLine.prepare invocation
    Project.Watch.start path
  match ← carryOut invocation.verbose work (← workspaceOf invocation) with
  | .ok watch => keepPolling invocation watch
  | .error fault => failed fault

/-- The lines of a head, up to an empty one. -/
partial def headLines (input : IO.FS.Stream) : IO (List Text) := do
  let line := Text.trim (← input.getLine).toList
  if line.isEmpty then pure [] else pure (line :: (← headLines input))

partial def readBytes (input : IO.FS.Stream) (length : Nat) : IO Bytes := do
  let chunk ← input.read length.toUSize
  if chunk.isEmpty then pure [] else pure (chunk.toList ++ (← readBytes input (length - chunk.size)))

/-- Answers the request on standard input. -/
def serve (verbose : Bool) : IO UInt32 := do
  let input ← IO.getStdin
  let first := (← input.getLine).toList
  let body ← readBytes input (Service.bodyLength (← headLines input))
  match Service.requestLine? first with
  | none => pure 1
  | some (method, target) =>
    let request : Service.Request := { method, target, body := (Bytes.toText? body).getD [] }
    let workspace ←
      match Service.projectPath? request with
      | some path => projectWorkspace path []
      | none => openWorkspace []
    match ← carryOut verbose (Service.respond request) workspace with
    | .ok response =>
      print response.message
      pure 0
    | .error fault =>
      print (Service.detail 500 "Internal Server Error").message
      failed fault

def runOnce (invocation : CommandLine.Invocation) : IO UInt32 := do
  match ← carryOut invocation.verbose (CommandLine.run invocation []) (← workspaceOf invocation) with
  | .ok outcome =>
    print outcome.output
    complain outcome.complaint
    pure outcome.code.toUInt32
  | .error fault => failed fault

end Program

end ComponentPages

open ComponentPages in
def main (arguments : List String) : IO UInt32 := do
  match CommandLine.parse (arguments.map String.toList) with
  | .error rejection =>
    if rejection = .help then Program.print Program.usage else Program.complain Program.usage
    pure rejection.exitCode.toUInt32
  | .ok invocation =>
    match invocation.command with
    | .watch path => Program.watch invocation path
    | .serve _ _ => Program.serve invocation.verbose
    | _ => Program.runOnce invocation
