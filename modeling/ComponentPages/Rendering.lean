import ComponentPages.Expansion

/-!
Rendering of a page from components held in memory, with no project around it.
-/
namespace ComponentPages

/-- A rendered page, the stylesheet of its components and its script block. -/
structure Rendering where
  html : Text
  css : Text
  script : Text

namespace Rendering

/-- How deeply components may nest unless a project says otherwise. -/
def nestingLimit : Int := 64

/-- Loads components, each named by the text it is reported under. -/
def load (components : Bindings Text) : Except Diagnostic Registry :=
  components.foldlM (fun (registry : Registry) (name, source) =>
    match Component.load name source none true >>= registry.add with
    | .ok added => .ok added
    | .error failure => .error ((Diagnostic.ofFailure failure).withSource name)) {}

def render (components : Bindings Text) (strict : Bool) (html : Text) : Except Diagnostic Rendering := do
  let registry ← load components
  match compileFresh { registry, strict } nestingLimit [] html with
  | (.error failure, _) => .error (Diagnostic.ofFailure failure)
  | (.ok html, page) =>
    .ok { html, css := registry.stylesheet, script := ScriptTexts.pageScript {} page.scripts page.usesSignals }

end Rendering

end ComponentPages
