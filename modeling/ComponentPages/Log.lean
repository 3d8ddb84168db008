import ComponentPages.Note

/-!
Log records and their two written forms: short console lines, and file lines that carry a time stamp and the
full name of the stage.
-/
namespace ComponentPages

inductive LogLevel where
  | debug | info | warning | error | critical
deriving DecidableEq

namespace LogLevel

def rank : LogLevel → Nat
  | .debug => 0
  | .info => 1
  | .warning => 2
  | .error => 3
  | .critical => 4

def name : LogLevel → Text
  | .debug => "DEBUG"
  | .info => "INFO"
  | .warning => "WARNING"
  | .error => "ERROR"
  | .critical => "CRITICAL"

end LogLevel

/-- A remark of a stage of the program. The program itself is the stage without a name. -/
structure LogRecord where
  level : LogLevel
  stage : Text
  message : Text
deriving DecidableEq

namespace LogRecord

/-- Records below this level are dropped. -/
def threshold (verbose : Bool) : LogLevel := if verbose then .debug else .info

def isShown (verbose : Bool) (record : LogRecord) : Bool := (threshold verbose).rank ≤ record.level.rank

/-- Plain messages stand alone; any other names its level and its stage. -/
def consoleLine (record : LogRecord) : Text :=
  if record.level = .info then "[gtml] " ++ record.message
  else
    let stage : Text := if record.stage.isEmpty then [] else ' ' :: record.stage ++ [':']
    "[gtml] " ++ record.level.name ++ stage ++ ' ' :: record.message

def fileLine (stamp : Text) (record : LogRecord) : Text :=
  let stage : Text := if record.stage.isEmpty then "gtml" else "gtml." ++ record.stage
  stamp ++ ' ' :: record.level.name ++ ' ' :: stage ++ ": " ++ record.message

/-- The console text of records, one line each. -/
def consoleText (verbose : Bool) (records : List LogRecord) : Text :=
  (records.filter (isShown verbose)).flatMap fun record => record.consoleLine ++ ['\n']

/-- A note that a compilation left. -/
def ofNote (note : Note) : LogRecord := ⟨.debug, note.stage, note.message⟩

end LogRecord

end ComponentPages
