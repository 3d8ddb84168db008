import ComponentPages.Attribute
import ComponentPages.Placeholder
import ComponentPages.PropDeclaration

/-!
Arguments of a component tag. An expression in braces keeps its type; a quoted value is a string with its
placeholders filled in. Bare and unquoted attributes are no arguments.
-/
namespace ComponentPages

namespace Argument

/-- The value that an attribute passes, or nothing when the attribute is no argument. -/
def value? (caller : Scope) (props : Props) (attr : Attribute) : Except Failure (Option Value) :=
  match attr.value with
  | none | some (.unquoted, _) => .ok none
  | some (.braces, expression) => (Expression.evaluate expression caller).map some
  | some (.quoted _, text) =>
    let filled := (Placeholder.substitute text caller).map fun text => some (.string text)
    match props.get? attr.name with
    | some .string | none => filled
    | some type => .error (.rawArgument attr.name type attr.raw)

/-- Refuses a value of another type than the declared one and, when strict, an undeclared argument. -/
def check (props : Props) (strict : Bool) (attr : Attribute) (value : Value) : Except Failure Unit :=
  match props.get? attr.name with
  | some type =>
    if value.type = type then .ok () else .error (.argumentType attr.name type value.type attr.raw)
  | none => if strict then .error (.unknownProp attr.name attr.raw) else .ok ()

/-- The argument that an attribute passes, or nothing. -/
def ofAttribute (caller : Scope) (props : Props) (strict : Bool) (attr : Attribute) :
    Except Failure (Option (Text × Value)) := do
  match ← value? caller props attr with
  | none => .ok none
  | some value =>
    check props strict attr value
    .ok (some (attr.name, value))

/-- Gives an unfilled prop the empty value of its type; when strict, refuses it. -/
def fill (strict : Bool) (given : Bindings Value) (prop : Text × ValueType) :
    Except Failure (Bindings Value) :=
  let (name, type) := prop
  if given.binds name then .ok given
  else if strict then .error (.missingProp name type)
  else .ok (given.set name (Value.zero type))

/-- The scope of a component's template: the arguments of its tag, then the props nobody filled. -/
def resolve (head : Text) (caller : Scope) (props : Props) (strict : Bool) : Except Failure (Bindings Value) := do
  let given ← (Attribute.tokenize head).mapM (ofAttribute caller props strict)
  props.foldlM (fill strict) (Bindings.ofList (given.filterMap id))

/-- The attributes that `resolve` reads before it fails or ends. -/
def reached (head : Text) (caller : Scope) (props : Props) (strict : Bool) : List Attribute :=
  (Attribute.tokenize head).takeWhile fun attr =>
    (ofAttribute caller props strict attr).toOption.isSome

end Argument

end ComponentPages
