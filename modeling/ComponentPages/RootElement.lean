import ComponentPages.Markup.ComponentTag

/-!
The root element of a template: whether there is exactly one, and the scope attribute it carries.
-/
namespace ComponentPages

namespace RootElement

def comment : Pattern Unit := fun text => do
  let opened ← Text.after? "<!--" text
  let (_, _, rest) ← Pattern.seek? (fun text => (Text.after? "-->" text).map ((), ·)) opened
  some ((), rest)

/-- The name of an opening tag: an ASCII letter, then word characters and hyphens. -/
def openingName : Pattern Text := fun text => do
  match ← Text.after? "<" text with
  | [] => none
  | c :: rest =>
    if c.isAlpha then some (c :: rest.takeWhile isSlugPart, rest.dropWhile isSlugPart) else none

/-- The elements that are never closed. -/
def voidNames : List Text :=
  ["area", "base", "br", "col", "embed", "hr", "img", "input", "link", "meta", "source", "track", "wbr"]

/-- The stretches that comments cover. -/
def commentSpans (html : Text) : List Span :=
  (Pattern.located 0 (Pattern.segments comment html)).filterMap fun (offset, segment) =>
    segment.value?.map fun _ => ⟨offset, offset + segment.source.length⟩

/-- The offset right after the name of the first opening tag that is neither in a comment nor a script. -/
def nameStop? (html : Text) : Option Nat :=
  let comments := commentSpans html
  (Pattern.located 0 (Pattern.segments openingName html)).findSome? fun (offset, segment) =>
    match segment with
    | .plain _ => none
    | .hit source name =>
      if covered comments offset || Text.lower name == "script" then none else some (offset + source.length)

/-- Adds an empty attribute to the root element's opening tag. -/
def addAttribute (html name : Text) : Text :=
  match nameStop? html with
  | some stop => html.take stop ++ " " ++ name ++ "=\"\"" ++ html.drop stop
  | none => html

/-- What follows the element at the front of a text. -/
def afterElement? (text : Text) : Option Text := do
  let (name, afterName) ← openingName text
  let (head, body) ← TagHead.read? afterName
  if TagHead.closesItself head || voidNames.contains (Text.lower name) then some body
  else
    let bodyStart := text.length - body.length
    let close ← Tag.close? text name bodyStart
    some (text.drop close.stop)

/-- Whether the markup is one element, not counting comments, script blocks and white space around it. -/
def isSingle (html : Text) : Bool :=
  let bare := Text.trim (Pattern.erase (Block.named "script") (Pattern.erase comment html))
  match afterElement? bare with
  | some rest => rest.all isBlank
  | none => false

end RootElement

end ComponentPages
