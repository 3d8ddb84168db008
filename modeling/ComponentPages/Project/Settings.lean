import ComponentPages.Number.Shortest
import ComponentPages.Project.Scaffold
import ComponentPages.Workspace
import ComponentPages.Yaml.Document

/-!
The settings of a project, read from its settings file. What the file leaves out, or gives in a form that makes no
sense there, keeps its standard value; limits that cannot work are refused.
-/
namespace ComponentPages

/-- How a number with a fraction is kept. -/
abbrev Seconds := Binary64

structure Settings where
  root : Location
  directories : Directories := {}
  strict : Bool := false
  nestingLimit : Int := 64
  injectAssets : Bool := true
  stylesheet : Text := "styles.css"
  templates : Option Path := none
  interval : Seconds := .ofInt 1

namespace Settings

variable (settings : Settings)

def rootPath : Path := Path.ofLocation settings.root

def componentsPath : Path := settings.rootPath.joinText settings.directories.components

def routesPath : Path := settings.rootPath.joinText settings.directories.routes

def distPath : Path := settings.rootPath.joinText settings.directories.dist

def staticPath : Path := settings.rootPath.joinText settings.directories.static

/-- The stylesheet's path in the output directory. -/
def stylesheetPath : Text := settings.directories.static ++ '/' :: settings.stylesheet

end Settings

namespace SettingsFile

/-- A scalar as text; a number with more digits than numerals may have cannot be written. -/
def text? : Yaml.Scalar → Except Fault (Option Text)
  | .text text => .ok (some text)
  | .int number =>
    if Numeral.digitLimit < (Text.ofNat number.natAbs).length then .error .numberTooLong
    else .ok (some (Text.ofInt number))
  | .float number => .ok (some number.render)
  | .boolean true => .ok (some "True")
  | .boolean false => .ok (some "False")
  | .null | .opaqueData => .ok none

def truth? : Yaml.Scalar → Option Bool
  | .boolean truth => some truth
  | .text text =>
    let word := String.ofList (Text.lower (Text.trim text))
    if ["true", "yes", "1"].contains word then some true
    else if ["false", "no", "0"].contains word then some false
    else none
  | _ => none

def int? : Yaml.Scalar → Option Int
  | .int number => some number
  | .text text => Numeral.int? text
  | _ => none

def seconds? : Yaml.Scalar → Except Fault (Option Seconds)
  | .int number =>
    match Binary64.ofInt number with
    | .infinite _ => .error .numberTooLarge
    | seconds => .ok (some seconds)
  | .float number => .ok (some number)
  | .text text => .ok (Numeral.float? text)
  | _ => .ok none

/-- A named value in a section of the file. -/
def scalar? (document : Yaml.Document) (section_ name : String) : Option Yaml.Scalar := do
  let root ← document.root
  document.scalar? (← document.member? (← document.member? root section_.toList) name.toList)

/-- A text that is not empty, else the standard one. -/
def textOr (standard : Text) (value : Option Yaml.Scalar) : Except Fault Text := do
  match value with
  | none => .ok standard
  | some scalar =>
    match ← text? scalar with
    | none | some [] => .ok standard
    | some text => .ok text

def directories (document : Yaml.Document) : Except Fault Directories := do
  let standard : Directories := {}
  .ok {
    components := ← textOr standard.components (scalar? document "paths" "components")
    routes := ← textOr standard.routes (scalar? document "paths" "routes")
    dist := ← textOr standard.dist (scalar? document "paths" "dist")
    static := ← textOr standard.static (scalar? document "paths" "static") }

/-- The settings that a document gives to the project at a location. -/
def settings (root : Location) (document : Yaml.Document) : Except Fault Settings := do
  let standard : Settings := { root }
  let directories ← directories document
  let limit := (scalar? document "compiler" "max_depth").bind int?
  if limit.any (· < 1) then .error (.settings .nestingLimit)
  let templates ← textOr [] (scalar? document "compiler" "templates_dir")
  let stylesheet ← textOr standard.stylesheet (scalar? document "compiler" "stylesheet")
  let interval ←
    match scalar? document "watch" "interval" with
    | none => pure none
    | some scalar => seconds? scalar
  if interval.any Binary64.isNonpositive then .error (.settings .interval)
  .ok {
    root
    directories
    strict := ((scalar? document "compiler" "strict_props").bind truth?).getD standard.strict
    nestingLimit := limit.getD standard.nestingLimit
    injectAssets := ((scalar? document "compiler" "inject_assets").bind truth?).getD standard.injectAssets
    stylesheet
    templates := if templates.isEmpty then none else some (standard.rootPath.joinText templates)
    interval := interval.getD standard.interval }

/-- Reads the text of a settings file. Empty text and an empty document are no settings. -/
def read (root : Location) (text : Text) : Except Fault Settings :=
  if (Text.trim text).isEmpty then .ok { root }
  else
    match Yaml.Document.read text with
    | .error .malformed => .error (.settings .unreadable)
    | .error flaw => .error (.yaml flaw)
    | .ok document =>
      match document.root with
      | none => .ok { root }
      | some node =>
        if document.scalar? node = some .null then .ok { root }
        else if document.isMapping node then settings root document
        else .error (.settings .notAMapping)

/-- The settings file for a path: in it if it is a directory, the file itself by its name, else beside it. -/
def locate (path : Path) : Work Location := do
  if ← Work.isDirectory path then Work.locate (path.joinText Scaffold.settingsName)
  else if path.name = Scaffold.settingsName then Work.locate path
  else Work.locate (path.parent.joinText Scaffold.settingsName)

/-- The settings of the project at a path; without a settings file the standard ones. -/
def load (path : Path) : Work Settings := do
  let location ← locate (← Work.expandHome path)
  let root := location.dropLast
  let file := Path.ofLocation location
  match ← Work.find? file with
  | none => pure { root }
  | some _ =>
    match read root (← Work.readText file) with
    | .ok settings => pure settings
    | .error fault => throw fault

end SettingsFile

end ComponentPages
