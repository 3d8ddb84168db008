import ComponentPages.Failure
import ComponentPages.Path
import ComponentPages.Yaml.Cursor

/-!
Why a command on a project ends: the compiler fails, the settings are wrong, a file cannot be had as it is
needed, or a value goes beyond what can be represented.
-/
namespace ComponentPages

/-- Why the file system refuses an operation. -/
inductive Refusal where
  | missing | exists | notADirectory | isADirectory | nameTooLong
  /-- A path holds the character that ends names for the system. -/
  | nullCharacter
deriving DecidableEq

namespace Refusal

def message : Refusal → Text
  | .missing => "[Errno 2] No such file or directory"
  | .exists => "[Errno 17] File exists"
  | .notADirectory => "[Errno 20] Not a directory"
  | .isADirectory => "[Errno 21] Is a directory"
  | .nameTooLong => "[Errno 36] File name too long"
  | .nullCharacter => "embedded null byte"

end Refusal

/-- What is wrong with a project's settings. -/
inductive SettingsFault where
  | unreadable | notAMapping | nestingLimit | interval
deriving DecidableEq

namespace SettingsFault

def message : SettingsFault → Text
  | .unreadable => "Failed to parse .gtml.yml"
  | .notAMapping => ".gtml.yml must contain a mapping at the root"
  | .nestingLimit => "compiler.max_depth must be a positive integer"
  | .interval => "watch.interval must be greater than zero"

end SettingsFault

inductive Fault where
  | compile (diagnostic : Diagnostic)
  | settings (fault : SettingsFault)
  | projectMissing (path : Text)
  | projectNotADirectory (path : Text)
  | projectExists (path : Text)
  | file (refusal : Refusal) (path : Text)
  | sameFile (source target : Text)
  /-- The machine that keeps the files complains in its own words. -/
  | device (complaint : Text)
  | notText
  | yaml (flaw : Yaml.Flaw)
  | numberTooLong
  | numberTooLarge
  | noHome
deriving DecidableEq

namespace Fault

def message : Fault → Text
  | .compile diagnostic => diagnostic.message
  | .settings fault => fault.message
  | .projectMissing path => "Project path not found: " ++ path
  | .projectNotADirectory path => "Project path is not a directory: " ++ path
  | .projectExists path => "Directory '" ++ path ++ "' already exists. Use --force to overwrite."
  | .file .nullCharacter _ => Refusal.nullCharacter.message
  | .file refusal path => refusal.message ++ ": " ++ Text.display path
  | .sameFile source target =>
    Text.display source ++ " and PosixPath(" ++ Text.display target ++ ") are the same file"
  | .device complaint => complaint
  | .notText => "file is not UTF-8 text"
  | .yaml _ => "settings hold a value that cannot be read"
  | .numberTooLong => "settings hold a number too long to write"
  | .numberTooLarge => "settings hold a number too large"
  | .noHome => "Could not determine home directory."

/-- Whether something is there that was to be made. -/
def isFileExists : Fault → Bool
  | .projectExists _ | .file .exists _ => true
  | _ => false

/-- Whether the fault is one of files and directories. -/
def isFile : Fault → Bool
  | .projectMissing _ | .projectNotADirectory _ | .projectExists _ | .sameFile _ _ | .device _ => true
  | .file refusal _ => refusal != .nullCharacter
  | _ => false

def isFileMissing : Fault → Bool
  | .projectMissing _ | .file .missing _ => true
  | _ => false

/-- Whether the fault is one of the project's sources or settings. -/
def isProject : Fault → Bool
  | .compile _ | .settings _ => true
  | _ => false

def ofFailure (failure : Failure) : Fault := .compile (Diagnostic.ofFailure failure)

end Fault

end ComponentPages
