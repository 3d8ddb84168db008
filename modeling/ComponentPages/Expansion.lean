import ComponentPages.Argument
import ComponentPages.Conditional
import ComponentPages.Fetch.Lowering
import ComponentPages.Signal

/-!
Expansion of component tags. The children of a tag are compiled in the scope the tag stands in, and fill the
slots of the component; the component's template is compiled in a scope that holds the tag's arguments alone.

Expansion ends: children are shorter than the text their tag stands in, a template is expanded with one more
component on the stack, and the search for tags moves on through the text.
-/
namespace ComponentPages

/-- What every expansion on a page shares. -/
structure Workshop where
  registry : Registry := {}
  strict : Bool := false
  texts : ScriptTexts := {}

namespace Expansion

/-- The notes on the fills among a tag's children. -/
def fillNotes (children : Text) : List Note :=
  (Pattern.segments Slot.usage children).flatMap fun
    | .plain _ => []
    | .hit markup usage =>
      let head := Note.ofHead usage.head
      if usage.name = [] then head ++ [.namelessFill markup]
      else if usage.tag = [] then head
      else head ++ head

/-- The arguments of a component tag, which become the scope of its template. -/
def arguments (workshop : Workshop) (component : Component) (scope : Scope) (head : Text) :
    Compile (Bindings Value) := do
  let reached := Argument.reached head scope component.props workshop.strict
  Compile.note (Note.ofHead head ++ reached.filterMap Note.ofArgument?)
  Compile.lift (Argument.resolve head scope component.props workshop.strict)

/-- Hides the bodies of fetch elements from the compilation. -/
def mask (html : Text) : Compile Text := do
  Compile.note ((Fetch.bodiesHeads html 0).flatMap Note.ofHead)
  Compile.lift (Fetch.mask html)

/-- A component's template with its arguments and fills in place. Its own component tags are still there.
Conditionals are settled before placeholders, so that a branch that is not taken is never evaluated. -/
def instantiate (workshop : Workshop) (component : Component) (scope : Scope) (fills : Bindings Text) :
    Compile Text := do
  let lowered ← Signal.lower component.template scope
  let masked ← mask (Slot.inject lowered fills)
  let settled ← Compile.lift (Conditional.settle masked scope)
  let substituted ← Compile.lift (Placeholder.substitute settled scope)
  Fetch.lower workshop.texts (Signal.resolve substituted)

/-- Expands a text from an offset on, with its conditionals settled already. -/
def expandFrom {limit : Int} (workshop : Workshop) (stack : ExpansionStack limit) (scope : Scope) (html : Text)
    (position : Nat) : Compile Text :=
  match _found : ComponentTag.next? html position with
  | .error failure => do
    Compile.note ((ComponentTag.dangling html position).map fun (name, offset) => .danglingClose name offset)
    throw failure
  | .ok none => do
    Compile.note ((ComponentTag.dangling html position).map fun (name, offset) => .danglingClose name offset)
    Compile.lift (Placeholder.substitute (html.drop position) scope)
  | .ok (some tag) =>
    have _bounds := ComponentTag.bounds_of_next? _found
    do
    Compile.note ((ComponentTag.dangling html position).map fun (name, offset) => .danglingClose name offset)
    let before ← Compile.lift (Placeholder.substitute (Text.slice html position tag.start) scope)
    let component ← Compile.lift (workshop.registry.require tag.name)
    let arguments ← arguments workshop component scope tag.attributes
    Compile.note [.expanding tag.name arguments.length]
    let inner ← Compile.lift (Conditional.reduce tag.inner scope)
    have _shorter := inner.property
    let children ← expandFrom workshop stack scope inner.val 0
    Compile.note (fillNotes children)
    match _enters : stack.enter component.name with
    | .error failure => throw failure
    | .ok entered =>
      have _room := ExpansionStack.room_of_enter _enters
      let instance_ ← instantiate workshop component arguments (Slot.fills children)
      let template ← Compile.lift (Conditional.settle instance_ arguments)
      let expanded ← expandFrom workshop entered arguments template 0
      let rest ← expandFrom workshop stack scope html tag.stop
      pure (before ++ expanded ++ rest)
termination_by (stack.room, html.length, html.length - position)
decreasing_by
  · exact Prod.Lex.right _ (Prod.Lex.left _ _ (by omega))
  · exact Prod.Lex.left _ _ _room
  · exact Prod.Lex.right _ (Prod.Lex.right _ (by omega))

/-- Expands a text in a scope. -/
def expand {limit : Int} (workshop : Workshop) (stack : ExpansionStack limit) (scope : Scope) (html : Text) :
    Compile Text := do
  let settled ← Compile.lift (Conditional.settle html scope)
  expandFrom workshop stack scope settled 0

end Expansion

/-- Compiles a page, or a fragment of one. A page's own scripts, handlers and fetch elements are lowered as
well, and the bodies of fetch elements are brought back last. -/
def compilePage {limit : Int} (workshop : Workshop) (stack : ExpansionStack limit) (scope : Scope)
    (topLevel : Bool) (html : Text) : Compile Text := do
  if topLevel then
    let lowered ← Signal.lower html scope
    let masked ← Expansion.mask lowered
    let expanded ← Expansion.expand workshop stack scope masked
    let fetched ← Fetch.lower workshop.texts (Signal.resolve expanded)
    pure (Fetch.unmask fetched)
  else Expansion.expand workshop stack scope html

/-- Runs a compilation on what a page has gathered already. -/
def Compile.run {α : Type} (compilation : Compile α) (page : Page) : Except Failure α × Page :=
  (ExceptT.run compilation).run page

/-- A compiled page: its markup and what it has gathered. -/
def compileFresh (workshop : Workshop) (limit : Int) (scope : Scope) (html : Text) : Except Failure Text × Page :=
  Compile.run (compilePage workshop (ExpansionStack.empty limit) scope true html) {}

end ComponentPages
