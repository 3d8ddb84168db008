import ComponentPages.Text.Quoted

/-!
Typed values: what expressions evaluate to and what components receive as arguments.
-/
namespace ComponentPages

inductive ValueType where
  | string
  | int
  | boolean
deriving DecidableEq

namespace ValueType

def name : ValueType → Text
  | .string => "string"
  | .int => "int"
  | .boolean => "boolean"

/-- The type with a given name. -/
def ofName? (written : Text) : Option ValueType :=
  [ValueType.string, .int, .boolean].find? fun type => type.name = written

end ValueType

inductive Value where
  | string (text : Text)
  | int (number : Int)
  | boolean (truth : Bool)
deriving DecidableEq

namespace Value

def type : Value → ValueType
  | .string _ => .string
  | .int _ => .int
  | .boolean _ => .boolean

/-- The value that stands for a declared prop nobody fills. -/
def zero : ValueType → Value
  | .string => .string []
  | .int => .int 0
  | .boolean => .boolean false

/-- As `zero`, for a type given by its name; an unknown name counts as a string. -/
def zeroNamed (typeName : Text) : Value := zero ((ValueType.ofName? typeName).getD .string)

/-- The value as template text. -/
def render : Value → Text
  | .string text => text
  | .int number => Text.ofInt number
  | .boolean true => "true"
  | .boolean false => "false"

/-- The value as a script literal. -/
def literal : Value → Text
  | .string text => Text.json text
  | value => value.render

end Value

/-- Names in reach of an expression. -/
abbrev Scope := List (Text × Value)

end ComponentPages
