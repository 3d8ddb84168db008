import ComponentPages.CommandLine.Arguments
import ComponentPages.Project.Watch

/-!
Running a command: what it prints, what it complains of and the code it ends with. Faults that no command
expects are let through.
-/
namespace ComponentPages

namespace CommandLine

/-- How a command ended. A server is started by whoever ran the command. -/
structure Outcome where
  code : Nat := 0
  output : Text := []
  complaint : Text := []
  server : Option (Text × Int) := none
  /-- The length of the naps of a watch, and how many it took. -/
  naps : Option (Seconds × Nat) := none

def failed (complaint : Text) : Outcome := { code := 1, complaint := complaint ++ ['\n'] }

/-- Opens the log file for appending, with the directories it lies in. -/
def openLog (verbose : Bool) (written : Text) : Work Unit := do
  let path := Path.ofText written
  Work.makeDirectories path.parent
  let directory := (← get).directory
  let full := Path.ofLocation (Path.locate directory path)
  let location ← Work.need full fun workspace => Work.target workspace full
  if ((← get).files.get? location).isNone then Work.put location (.file [])
  modify fun workspace => { workspace with logFile := some { location, verbose } }

/-- Turns expected faults into a complaint. -/
def expecting (isExpected : Fault → Bool) (complaint : Fault → Text) (work : Work Outcome) : Work Outcome :=
  tryCatch work fun fault => if isExpected fault then pure (failed (complaint fault)) else throw fault

def compilationFailed (fault : Fault) : Text := "Compilation failed: " ++ fault.message

def runInit (path : Text) (force : Bool) : Work Outcome :=
  expecting Fault.isFile
    (fun fault => if fault.isFileExists then fault.message else "gtml init failed: " ++ fault.message) do
    let root ← Project.create path force
    let shown := Path.displayFrom (← get).directory (Path.ofLocation root)
    pure { output := "Project created at " ++ shown ++ ['\n'] }

def runCompile (path : Text) : Work Outcome :=
  expecting (fun fault => fault.isProject || fault.isFile) compilationFailed do
    let report ← Project.build path
    let shown := Path.displayFrom (← get).directory report.dist
    pure { output :=
      "Compiled " ++ Text.ofNat report.routes.length ++ " route(s) from " ++ Text.ofNat report.components ++
        " component(s) into " ++ shown ++ ['\n'] }

def isSettingsFault : Fault → Bool
  | .settings _ => true
  | _ => false

def runWatch (path : Text) (naps : List (Work Unit)) : Work Outcome :=
  expecting isSettingsFault compilationFailed do
    pure { naps := some (← Project.watch path none naps) }

/-- Opens the log file that is asked for, and no other. -/
def prepare (invocation : Invocation) : Work Unit := do
  modify fun workspace => { workspace with logFile := none }
  match invocation.logFile with
  | none => pure ()
  | some written => openLog invocation.verbose written

def perform (command : Command) (naps : List (Work Unit)) : Work Outcome :=
  match command with
  | .init path force => runInit path force
  | .compile path => runCompile path
  | .watch path => runWatch path naps
  | .serve host port => pure { server := some (host, port) }

/-- Runs a command; the naps are those of a watch. -/
def run (invocation : Invocation) (naps : List (Work Unit)) : Work Outcome := do
  prepare invocation
  perform invocation.command naps

end CommandLine

end ComponentPages
