import ComponentPages.Value

/-!
Why compiling fails. Each cause carries what its report needs; the wording, the kind and the offending piece
of text are read off the cause in one place. A diagnostic is such a report with the file it is about.
-/
namespace ComponentPages

/-- The kinds by which reports are told apart. -/
inductive FailureKind where
  | compileError | evalError | componentNotFound | undefinedVariable | typeMismatch | divisionByZero
  | moduloByZero | malformedExpression | malformedTernary | invalidPropDeclaration | missingProp
  | unknownProp | multipleRootElements | cyclicComponentReference | malformedTag | scriptSyntax
  | invalidName | missingDirectory
deriving DecidableEq

namespace FailureKind

/-- Whether the failure arose while evaluating an expression. -/
def isEvaluation : FailureKind → Bool
  | .evalError | .undefinedVariable | .typeMismatch | .divisionByZero | .moduloByZero
  | .malformedExpression | .malformedTernary => true
  | _ => false

/-- The name under which tools report failures of the kind. -/
def name : FailureKind → Text
  | .compileError => "CompileError"
  | .evalError => "EvalError"
  | .componentNotFound => "ComponentNotFound"
  | .undefinedVariable => "UndefinedVariable"
  | .typeMismatch => "TypeMismatch"
  | .divisionByZero => "DivisionByZero"
  | .moduloByZero => "ModuloByZero"
  | .malformedExpression => "MalformedExpression"
  | .malformedTernary => "MalformedTernary"
  | .invalidPropDeclaration => "InvalidPropDeclaration"
  | .missingProp => "MissingProp"
  | .unknownProp => "UnknownProp"
  | .multipleRootElements => "MultipleRootElements"
  | .cyclicComponentReference => "CyclicComponentReference"
  | .malformedTag => "MalformedTag"
  | .scriptSyntax => "ScriptSyntax"
  | .invalidName => "InvalidName"
  | .missingDirectory => "MissingDirectory"

def all : List FailureKind := [
  .compileError, .evalError, .componentNotFound, .undefinedVariable, .typeMismatch, .divisionByZero, .moduloByZero,
  .malformedExpression, .malformedTernary, .invalidPropDeclaration, .missingProp, .unknownProp, .multipleRootElements,
  .cyclicComponentReference, .malformedTag, .scriptSyntax, .invalidName, .missingDirectory]

def ofName? (name : Text) : Option FailureKind := all.find? fun kind => kind.name = name

end FailureKind

/-- The places of a conditional where one particular character must follow. -/
inductive Joint where
  | openTruthy | colon | openFalsy | closing
deriving DecidableEq

namespace Joint

def token : Joint → Char
  | .openTruthy | .openFalsy => '('
  | .colon => ':'
  | .closing => '}'

def place : Joint → Text
  | .openTruthy => "after '?' in ternary"
  | .colon => "after truthy branch"
  | .openFalsy => "after ':' in ternary"
  | .closing => "after falsy branch"

end Joint

inductive Failure where
  | emptyExpression (written : Text)
  | invalidExpression (expression : Text)
  | undefinedVariable (name : Text)
  | incomparable (left right : ValueType) (expression : Text)
  | unorderedBooleans (expression : Text)
  | unknownComparison (symbol expression : Text)
  | logicalOperands (symbol expression : Text)
  | additionOperands (expression : Text)
  | integerOperands (symbol expression : Text)
  | divisionByZero (expression : Text)
  | moduloByZero (expression : Text)
  | conditionType (condition : Text) (found : ValueType)
  | conditionalBrace (offset : Nat) (snippet : Text)
  | conditionalQuestion (snippet : Text)
  | conditionalUnfinished (snippet : Text)
  | conditionalMisplaced (joint : Joint) (snippet : Text)
  | conditionalAbsent (joint : Joint) (snippet : Text)
  | conditionalBranch (truthy : Bool) (snippet : Text)
  | unclosedTag (name snippet : Text)
  | unclosedComponent (name : Text)
  | unclosedFetch (name : Text)
  | propShape (declaration : Text)
  | propTwice (name : Text)
  | propName (name : Text)
  | propType (type name : Text)
  | rawArgument (name : Text) (expected : ValueType) (written : Text)
  | argumentType (name : Text) (expected found : ValueType) (written : Text)
  | unknownProp (name written : Text)
  | missingProp (name : Text) (type : ValueType)
  | componentName (shown name : Text)
  | componentTwice (name : Text)
  | componentRoot (name : Text)
  | componentMissing (name : Text)
  | cycle (chain : List Text) (name : Text)
  | tooDeep (limit : Int) (name : Text)
  | unclosedBinding (event snippet : Text)
  | unclosedHandler (event snippet : Text)
  | missingSignalValue (name snippet : Text)
  | emptyFetch (written : Text)
  | fetchMethod (method written : Text)
  | fetchBinding (name : Text)
  | loopShape (written : Text)
  | routeName (relative stem : Text)
  | directoryMissing (path : Text)
deriving DecidableEq

namespace Failure

def kind : Failure → FailureKind
  | .emptyExpression _ | .invalidExpression _ | .unknownComparison _ _ => .malformedExpression
  | .undefinedVariable _ => .undefinedVariable
  | .incomparable .. | .unorderedBooleans _ | .logicalOperands _ _ | .additionOperands _
  | .integerOperands _ _ | .conditionType _ _ | .rawArgument .. | .argumentType .. => .typeMismatch
  | .divisionByZero _ => .divisionByZero
  | .moduloByZero _ => .moduloByZero
  | .conditionalBrace _ _ | .conditionalQuestion _ | .conditionalUnfinished _ | .conditionalMisplaced _ _
  | .conditionalAbsent _ _ | .conditionalBranch _ _ => .malformedTernary
  | .unclosedTag _ _ | .unclosedComponent _ | .unclosedFetch _ => .malformedTag
  | .propShape _ | .propTwice _ | .propName _ | .propType _ _ => .invalidPropDeclaration
  | .unknownProp _ _ => .unknownProp
  | .missingProp _ _ => .missingProp
  | .componentName _ _ | .componentTwice _ | .routeName _ _ => .invalidName
  | .componentRoot _ => .multipleRootElements
  | .componentMissing _ => .componentNotFound
  | .cycle _ _ | .tooDeep _ _ => .cyclicComponentReference
  | .unclosedBinding _ _ | .unclosedHandler _ _ | .missingSignalValue _ _ | .emptyFetch _
  | .fetchMethod _ _ | .fetchBinding _ | .loopShape _ => .scriptSyntax
  | .directoryMissing _ => .missingDirectory

/-- The reason in words. -/
def detail : Failure → Text
  | .emptyExpression _ => "empty expression"
  | .invalidExpression expression => "invalid expression: " ++ expression
  | .undefinedVariable name => "undefined variable: " ++ name
  | .incomparable left right _ => "cannot compare " ++ left.name ++ " with " ++ right.name
  | .unorderedBooleans _ => "boolean comparison only supports == and !="
  | .unknownComparison symbol _ => "unknown comparison operator: " ++ symbol
  | .logicalOperands symbol _ => symbol ++ " operator requires boolean operands"
  | .additionOperands _ => "+ operator requires matching types (string + string or int + int)"
  | .integerOperands symbol _ => symbol ++ " operator requires int operands"
  | .divisionByZero _ => "division by zero"
  | .moduloByZero _ => "modulo by zero"
  | .conditionType condition found =>
    "ternary condition '" ++ condition ++ "' must evaluate to boolean, got " ++ found.name
  | .conditionalBrace offset _ => "expected '\x7b' at position " ++ Text.ofNat offset
  | .conditionalQuestion _ => "malformed ternary, missing '?'"
  | .conditionalUnfinished _ => "missing '?' in ternary expression"
  | .conditionalMisplaced joint _ => "expected '" ++ [joint.token] ++ "' " ++ joint.place
  | .conditionalAbsent joint _ => "missing '" ++ [joint.token] ++ "' in ternary expression"
  | .conditionalBranch true _ => "unbalanced parentheses in truthy branch"
  | .conditionalBranch false _ => "unbalanced parentheses in falsy branch"
  | .unclosedTag name _ => "component tag <" ++ name ++ "> is never closed with '>'"
  | .unclosedComponent name => "missing closing tag </" ++ name ++ ">"
  | .unclosedFetch name => "missing closing tag </" ++ name ++ "> for fetch element"
  | .propShape declaration =>
    "invalid prop declaration '" ++ declaration ++ "' (expected 'name type')"
  | .propTwice name => "duplicate prop name: " ++ name
  | .propName name => "invalid prop name '" ++ name ++ "'"
  | .propType type name =>
    "invalid prop type '" ++ type ++ "' for prop '" ++ name ++ "' (must be string, int, or boolean)"
  | .rawArgument name expected _ =>
    "prop '" ++ name ++ "' expects type '" ++ expected.name ++
      "', but got raw string value. Use \x7bexpression\x7d syntax for non-string types"
  | .argumentType name expected found _ =>
    "prop '" ++ name ++ "' expects type '" ++ expected.name ++ "', but got '" ++ found.name ++ "'"
  | .unknownProp name _ => "unknown prop '" ++ name ++ "'"
  | .missingProp name type => "missing required prop '" ++ name ++ "' of type '" ++ type.name ++ "'"
  | .componentName shown _ => "component '" ++ shown ++ "' must be PascalCase"
  | .componentTwice name => "duplicate component name found: " ++ name
  | .componentRoot name => "component '" ++ name ++ "' must have a single root element"
  | .componentMissing name => "component '" ++ name ++ "' not found"
  | .cycle chain name =>
    "component '" ++ name ++ "' references itself: " ++ List.intercalate " -> " (chain ++ [name])
  | .tooDeep limit name =>
    "component nesting deeper than " ++ Text.ofInt limit ++ " levels at '" ++ name ++ "'"
  | .unclosedBinding event _ => "unbalanced parentheses in " ++ event ++ " binding"
  | .unclosedHandler event _ => "unbalanced braces in inline " ++ event ++ " handler"
  | .missingSignalValue name _ => "missing value for signal '$" ++ name ++ "'"
  | .emptyFetch _ => "fetch attribute is empty"
  | .fetchMethod method _ => "invalid fetch method '" ++ method ++ "'"
  | .fetchBinding name => "invalid fetch binding name '" ++ name ++ "'"
  | .loopShape written =>
    "invalid for attribute format '" ++ written ++ "' (expected 'item in source')"
  | .routeName relative _ => "route '" ++ relative ++ "' must be kebab-case"
  | .directoryMissing path => "missing required directory: " ++ path

/-- The offending piece of text. -/
def snippet : Failure → Text
  | .emptyExpression text | .invalidExpression text | .undefinedVariable text | .incomparable _ _ text
  | .unorderedBooleans text | .unknownComparison _ text | .logicalOperands _ text
  | .additionOperands text | .integerOperands _ text | .divisionByZero text | .moduloByZero text
  | .conditionType text _ | .conditionalBrace _ text | .conditionalQuestion text
  | .conditionalUnfinished text | .conditionalMisplaced _ text | .conditionalAbsent _ text
  | .conditionalBranch _ text | .unclosedTag _ text | .unclosedComponent text | .unclosedFetch text
  | .propShape text | .propTwice text | .propName text | .propType text _ | .rawArgument _ _ text
  | .argumentType _ _ _ text | .unknownProp _ text | .missingProp text _ | .componentName _ text
  | .componentTwice text | .componentRoot text | .componentMissing text | .cycle _ text
  | .tooDeep _ text | .unclosedBinding _ text | .unclosedHandler _ text | .missingSignalValue _ text
  | .emptyFetch text | .fetchMethod _ text | .fetchBinding text | .loopShape text
  | .routeName _ text | .directoryMissing text => text

end Failure

/-- A failure as it is reported: what is wrong, on which text and in which file. -/
structure Diagnostic where
  kind : FailureKind
  detail : Text
  snippet : Text := []
  source : Option Text := none
deriving DecidableEq

namespace Diagnostic

def ofFailure (failure : Failure) : Diagnostic := ⟨failure.kind, failure.detail, failure.snippet, none⟩

/-- The diagnostic names its file, unless that is absent or empty. -/
def message (diagnostic : Diagnostic) : Text :=
  match diagnostic.source with
  | none | some [] => diagnostic.detail
  | some source => source ++ ": " ++ diagnostic.detail

/-- Attaches a file; the first one attached stays. -/
def withSource (source : Text) (diagnostic : Diagnostic) : Diagnostic :=
  match diagnostic.source with
  | none => { diagnostic with source := some source }
  | some _ => diagnostic

end Diagnostic

end ComponentPages
