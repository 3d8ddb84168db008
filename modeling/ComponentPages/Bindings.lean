import ComponentPages.Text.Basic

/-!
Named values in the order in which their names were first set. Setting a name again changes its value and
keeps its place.
-/
namespace ComponentPages

abbrev Bindings (α : Type) := List (Text × α)

namespace Bindings

variable {α : Type}

def set (name : Text) (value : α) : Bindings α → Bindings α
  | [] => [(name, value)]
  | (other, old) :: rest => if other = name then (name, value) :: rest else (other, old) :: set name value rest

def get? (name : Text) (bindings : Bindings α) : Option α := bindings.lookup name

def names (bindings : Bindings α) : List Text := bindings.map Prod.fst

def binds (name : Text) (bindings : Bindings α) : Bool := bindings.any fun (other, _) => other = name

/-- The bindings that result from setting names one after the other. -/
def ofList (pairs : List (Text × α)) : Bindings α :=
  pairs.foldl (fun bindings (name, value) => set name value bindings) []

end Bindings

end ComponentPages
