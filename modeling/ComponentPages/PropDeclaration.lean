import ComponentPages.Failure
import ComponentPages.Bindings
import ComponentPages.Text.Pattern

/-!
Declared props. A template declares its props in one attribute, `props='name type, …'`, and in older templates by
markers as well; reading the declarations takes them out of the template.
-/
namespace ComponentPages

/-- The props a component declares, by name. -/
abbrev Props := Bindings ValueType

namespace Props

/-- The declaring attribute: white space, `props`, an equals sign and a quoted list. -/
def listAttribute : Pattern Text := fun text => do
  if !text.head?.any isBlank then none
  let afterName ← Text.after? "props" (Text.trimLeft text)
  let afterEquals ← Text.after? "=" (Text.trimLeft afterName)
  match Text.trimLeft afterEquals with
  | [] => none
  | quote :: rest => if isQuote quote then Text.cut? quote rest else none

def isMarkerPart (c : Char) : Bool := !isBlank c && c != '\x7d'

/-- The older marker that declares a prop where its value is wanted. -/
def propMarker : Pattern (Text × Text) := fun text => do
  let opened ← Text.after? "\x7b\x7b" text
  let label ← Text.after? "prop:" (Text.trimLeft opened)
  let (name, afterName) ← Pattern.run isMarkerPart (Text.trimLeft label)
  let (_, typeStart) ← Pattern.run isBlank afterName
  let (type, afterType) ← Pattern.run isMarkerPart typeStart
  let rest ← Text.after? "\x7d\x7d" (Text.trimLeft afterType)
  some ((name, type), rest)

/-- The older marker that hands a prop on. -/
def drillMarker : Pattern Text := fun text => do
  let opened ← Text.after? "\x7b\x7b" text
  let label ← Text.after? "drill:" (Text.trimLeft opened)
  let (name, afterName) ← Pattern.identifier (Text.trimLeft label)
  let rest ← Text.after? "\x7d\x7d" (Text.trimLeft afterName)
  some (name, rest)

/-- The declared type, for a well-formed name and a known type. -/
def declare (name typeName : Text) : Except Failure ValueType :=
  if Text.isIdentifier name then
    match ValueType.ofName? typeName with
    | some type => .ok type
    | none => .error (.propType typeName name)
  else .error (.propName name)

/-- Adds one declaration of the list, `name type`; an empty one adds nothing. -/
def addListed (props : Props) (declaration : Text) : Except Failure Props :=
  match Text.words declaration with
  | [] => .ok props
  | [name, typeName] =>
    if props.binds name then .error (.propTwice name)
    else (declare name typeName).map fun type => props.set name type
  | _ => .error (.propShape (Text.trim declaration))

/-- Adds one marked declaration; repeating a declaration is allowed, changing it is not. -/
def addMarked (props : Props) (name typeName : Text) : Except Failure Props := do
  let type ← declare name typeName
  match props.get? name with
  | some old => if old = type then .ok props else .error (.propTwice name)
  | none => .ok (props.set name type)

/-- The declaring list of a template, if any, and the template without it. -/
def split (template : Text) : Text × Text :=
  match Pattern.seek? listAttribute template with
  | some (before, declarations, after) => (declarations, before ++ after)
  | none => ([], template)

/-- A placeholder for a prop. -/
def placeholder (name : Text) : Text := '\x7b' :: name ++ ['\x7d']

/-- The props that a template declares, and the template without the declarations. -/
def read (template : Text) : Except Failure (Props × Text) := do
  let (declarations, body) := split template
  let listed ← (Text.pieces ',' declarations).foldlM addListed []
  let props ← (Pattern.values propMarker body).foldlM (fun props (name, type) => addMarked props name type) listed
  let unmarked := Pattern.replace propMarker (fun (name, _) => placeholder name) body
  .ok (props, Pattern.replace drillMarker placeholder unmarked)

end Props

end ComponentPages
