import ComponentPages.Component
import ComponentPages.Note

/-!
What a compilation carries along. The stack of components being expanded guards against cycles and endless
nesting; it never holds a name twice nor more names than its limit. The page gathers generated ids, scripts and
notes, and keeps what it has gathered when a failure ends the compilation.
-/
namespace ComponentPages

/-- The components being expanded, outermost first. -/
structure ExpansionStack (limit : Int) where
  names : List Text := []
  distinct : names.Nodup := by exact List.nodup_nil
  within : names.length ≤ limit.toNat := by exact Nat.zero_le _

namespace ExpansionStack

variable {limit : Int}

def empty (limit : Int) : ExpansionStack limit := {}

/-- Enters a component, unless it is being expanded already or the limit is reached. -/
def enter (stack : ExpansionStack limit) (name : Text) : Except Failure (ExpansionStack limit) :=
  if fresh : name ∈ stack.names then .error (.cycle stack.names name)
  else if room : (stack.names.length : Int) < limit then
    .ok {
      names := stack.names ++ [name]
      distinct := by
        refine List.nodup_append.2 ⟨stack.distinct, by simp, ?_⟩
        intro other member same absent
        simp only [List.mem_singleton] at absent
        intro equal
        exact fresh (by rw [← absent, ← equal]; exact member)
      within := by simp only [List.length_append, List.length_singleton]; omega }
  else .error (.tooDeep limit name)

/-- Leaves the component entered last. -/
def leave (stack : ExpansionStack limit) : ExpansionStack limit where
  names := stack.names.dropLast
  distinct := stack.distinct.sublist (List.dropLast_sublist _)
  within := by have := stack.within; simp only [List.length_dropLast]; omega

/-- How many components may still be entered. -/
def room (stack : ExpansionStack limit) : Nat := limit.toNat - stack.names.length

theorem room_of_enter {stack entered : ExpansionStack limit} {name : Text}
    (enters : stack.enter name = .ok entered) : entered.room < stack.room := by
  unfold enter at enters
  split at enters
  · simp at enters
  · split at enters
    · obtain rfl := Except.ok.inj enters
      have below := stack.within
      simp only [room, List.length_append, List.length_singleton]
      omega
    · simp at enters

end ExpansionStack

/-- Counters of generated ids, one for each stem. -/
abbrev Counters := Bindings Nat

namespace Counters

def count (counters : Counters) (stem : Text) : Nat := (counters.get? stem).getD 0

/-- The next id of a stem. -/
def next (counters : Counters) (stem : Text) : Text × Counters :=
  let number := counters.count stem + 1
  (stem ++ "-" ++ Text.ofNat number, counters.set stem number)

end Counters

/-- What a page has gathered. -/
structure Page where
  ids : Counters := []
  scripts : List Text := []
  usesSignals : Bool := false
  notes : List Note := []

namespace Page

/-- Queues a script, unless the same one is queued already. -/
def addScript (page : Page) (script : Text) : Page :=
  if page.scripts.contains script then page else { page with scripts := page.scripts ++ [script] }

end Page

abbrev Compile := ExceptT Failure (StateM Page)

namespace Compile

def note (notes : List Note) : Compile Unit := modify fun page => { page with notes := page.notes ++ notes }

def addScript (script : Text) : Compile Unit := modify fun page => page.addScript script

def needSignals : Compile Unit := modify fun page => { page with usesSignals := true }

/-- Draws the next id of a stem. -/
def nextId (stem : Text) : Compile Text := do
  let page ← get
  let (id, ids) := page.ids.next stem
  set { page with ids }
  pure id

/-- A result that needs nothing of the page. -/
def lift {α : Type} (result : Except Failure α) : Compile α :=
  match result with
  | .ok value => pure value
  | .error failure => throw failure

end Compile

end ComponentPages
