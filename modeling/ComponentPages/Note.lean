import ComponentPages.Attribute
import ComponentPages.Value

/-!
Notes: what a compilation remarks on beside its result. They are shown in verbose logs, each under the stage
that made it.
-/
namespace ComponentPages

inductive Note where
  | danglingClose (name : Text) (offset : Nat)
  | valueless (name : Text)
  | bareArgument (name : Text)
  | unquotedArgument (raw : Text)
  | namelessFill (markup : Text)
  | declaredSignals (names : List Text)
  | expanding (name : Text) (arguments : Nat)
  | fetchElement (id method url binding : Text) (loops : Nat)
deriving DecidableEq

namespace Note

def stage : Note → Text
  | .danglingClose _ _ => "compiler.scanner"
  | .valueless _ | .bareArgument _ | .unquotedArgument _ => "compiler.attributes"
  | .namelessFill _ => "compiler.slots"
  | .declaredSignals _ => "compiler.signals"
  | .expanding _ _ => "compiler.resolver"
  | .fetchElement .. => "compiler.fetch"

def message : Note → Text
  | .danglingClose name offset =>
    "Skipping dangling closing tag </" ++ name ++ "> at offset " ++ Text.ofNat offset
  | .valueless name => "Skipping attribute " ++ Text.display name ++ " with no value"
  | .bareArgument name => "Ignoring attribute " ++ Text.display name ++ " without a value"
  | .unquotedArgument raw => "Ignoring unquoted attribute value " ++ Text.display raw
  | .namelessFill markup => "Ignoring slot fill without a name: " ++ markup.take 60
  | .declaredSignals names =>
    "Declared signals: " ++ List.intercalate ", " (names.mergeSort Text.atMost)
  | .expanding name arguments =>
    "Expanding <" ++ name ++ "> with " ++ Text.ofNat arguments ++ " argument(s)"
  | .fetchElement id method url binding loops =>
    "Fetch element #" ++ id ++ ": " ++ method ++ " " ++ url ++ " as " ++ binding ++ " (" ++
      Text.ofNat loops ++ " loop(s))"

/-- The note on a head whose last name lacks its value. -/
def ofHead (head : Text) : List Note := (Attribute.valueless? head).toList.map .valueless

/-- The note on an attribute that is no argument. -/
def ofArgument? (attr : Attribute) : Option Note :=
  match attr.value with
  | none => some (.bareArgument attr.name)
  | some (.unquoted, _) => some (.unquotedArgument attr.raw)
  | some _ => none

end Note

end ComponentPages
