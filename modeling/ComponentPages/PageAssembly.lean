import ComponentPages.Text.Pattern

/-!
Assembly of a finished page: the stylesheet link goes before the last closing head tag, the page script before
the last closing body tag. A page without such a tag gets them at its end.
-/
namespace ComponentPages

namespace PageAssembly

/-- A closing tag of the given lower-case name, with white space after the name at will. -/
def closeTag (name : Text) : Pattern Unit := fun text => do
  let inside ← Text.after? ['<', '/'] text
  let rest ← Text.afterFolded? name inside
  match Text.trimLeft rest with
  | '>' :: after => some ((), after)
  | _ => none

/-- The offset of the last closing tag of a name. -/
def lastClose? (name html : Text) : Option Nat :=
  (((Pattern.located 0 (Pattern.segments (closeTag name) html)).filter fun (_, segment) =>
    segment.value?.isSome).getLast?).map Prod.fst

/-- Puts a snippet on a line of its own before the last closing tag of a name, or at the end of the page. -/
def insert (name snippet html : Text) : Text :=
  match lastClose? name html with
  | some offset => html.take offset ++ snippet ++ '\n' :: html.drop offset
  | none =>
    let gap : Text := if html.isEmpty || html.getLast? = some '\n' then [] else ['\n']
    html ++ gap ++ snippet ++ ['\n']

def stylesheetLink (href : Text) : Text := "<link rel=\"stylesheet\" href=\"" ++ href ++ "\">"

/-- Adds the link to a stylesheet, unless there is none or the page mentions it already. -/
def addStylesheet (href html : Text) : Text :=
  if href.isEmpty || Text.contains href html then html else insert "head" (stylesheetLink href) html

/-- Adds a script block, unless it is empty. -/
def addScript (script html : Text) : Text := if script.isEmpty then html else insert "body" script html

def assemble (href script html : Text) : Text := addScript script (addStylesheet href html)

end PageAssembly

end ComponentPages
