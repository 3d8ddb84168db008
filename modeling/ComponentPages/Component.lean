import ComponentPages.PropDeclaration
import ComponentPages.RootElement
import ComponentPages.Slot
import ComponentPages.Stylesheet

/-!
Components and the registry of those a page may use. Loading takes a component's stylesheet and declared props
out of its source and insists on one root element.
-/
namespace ComponentPages

/-- A capital ASCII letter, then ASCII letters and digits. -/
def isPascalCase : Text → Bool
  | [] => false
  | c :: rest => c.isUpper && rest.all Char.isAlphanum

/-- Runs of lower-case ASCII letters and digits, joined by single hyphens. -/
def isKebabCase (name : Text) : Bool :=
  (Text.pieces '-' name).all fun piece => piece != [] && piece.all fun c => c.isLower || c.isDigit

structure Component where
  name : Text
  template : Text
  props : Props
  scopeId : Text
  css : Text
  path : Option Text := none
deriving DecidableEq

namespace Component

/-- The attribute that marks a component's root element for its stylesheet. -/
def scopeIdFor (name : Text) : Text := "data-" ++ Text.lower name

/-- Builds a component from its name and source. The scope attribute is added on request. -/
def load (name source : Text) (path : Option Text) (addScope : Bool) : Except Failure Component := do
  if !isPascalCase name then
    let shown := match path with
      | none | some [] => name
      | some path => path
    .error (.componentName shown name)
  let scopeId := scopeIdFor name
  let (styleless, css) := Stylesheet.extract source scopeId
  let (props, propless) ← Props.read styleless
  let template := Slot.normalize propless
  if !RootElement.isSingle template then .error (.componentRoot name)
  let template := if addScope then RootElement.addAttribute template scopeId else template
  .ok { name, template, props, scopeId, css, path }

end Component

/-- The components of a compilation, in the order in which they were added. -/
structure Registry where
  components : List Component := []

namespace Registry

def find? (registry : Registry) (name : Text) : Option Component :=
  registry.components.find? fun component => component.name = name

def names (registry : Registry) : List Text := registry.components.map Component.name

def size (registry : Registry) : Nat := registry.components.length

/-- Adds a component, whose name must be new. -/
def add (registry : Registry) (component : Component) : Except Failure Registry :=
  if (registry.find? component.name).isSome then .error (.componentTwice component.name)
  else .ok ⟨registry.components ++ [component]⟩

def require (registry : Registry) (name : Text) : Except Failure Component :=
  match registry.find? name with
  | some component => .ok component
  | none => .error (.componentMissing name)

/-- The scoped stylesheets of all components, each under its name. -/
def stylesheet (registry : Registry) : Text :=
  registry.components.flatMap fun component =>
    match component.css with
    | [] => []
    | css => "/* " ++ component.name ++ " */\n" ++ css ++ "\n"

end Registry

end ComponentPages
