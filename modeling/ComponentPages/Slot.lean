import ComponentPages.Attribute
import ComponentPages.Markup.Block

/-!
Slots. A page fills a slot of a component with `<slot name='…'>body</slot>`; the component's template has a
placeholder `<slot name='…' />` where the fill goes. A fill with a `tag` is wrapped in an element of that name.
-/
namespace ComponentPages

namespace Slot

/-- A fill: the head of its tag and its body. The head holds no `>` and does not end in `/`. -/
structure Usage where
  head : Text
  body : Text

def usage : Pattern Usage := fun text => do
  let named ← Text.after? "<slot" text
  if !named.head?.any isBlank then none
  let (inside, afterHead) ← Text.cut? '>' (Text.trimLeft named)
  let head := Text.trimRight inside
  if head.getLast?.all (· == '/') then none
  let (body, _, rest) ← Pattern.seek? (Block.closing? (Text.after? "slot")) afterHead
  some (⟨head, body⟩, rest)

namespace Usage

def name (usage : Usage) : Text := ((Attribute.table usage.head).get? "name").getD []

def tag (usage : Usage) : Text := ((Attribute.table usage.head).get? "tag").getD []

/-- The spellings of the attributes that the wrapping element takes over. -/
def extras (usage : Usage) : List Text :=
  let others := (Attribute.tokenize usage.head).filter fun (attr : Attribute) =>
    attr.name ≠ "name" ∧ attr.name ≠ "tag"
  others.map Attribute.raw

/-- What goes in place of the slot. -/
def markup (usage : Usage) : Text :=
  match usage.tag with
  | [] => usage.body
  | tag =>
    let extras : Text := usage.extras.flatMap (' ' :: ·)
    "<" ++ tag ++ extras ++ ">" ++ usage.body ++ "</" ++ tag ++ ">"

end Usage

/-- The fills among the children of a component tag, by slot name. A fill without a name is ignored. -/
def fills (children : Text) : Bindings Text :=
  Bindings.ofList (((Pattern.values usage children).filter fun usage => usage.name != []).map
    fun usage => (usage.name, usage.markup))

/-- A placeholder for a fill; its quotes need not agree. -/
def placeholder : Pattern Text := fun text => do
  let named ← Text.after? "<slot" text
  if !named.head?.any isBlank then none
  let afterName ← Text.after? "name" (Text.trimLeft named)
  let afterEquals ← Text.after? "=" (Text.trimLeft afterName)
  let (name, afterSlug) ← Pattern.run isSlugPart (← unquote (Text.trimLeft afterEquals))
  let rest ← Text.after? "/>" (Text.trimLeft (← unquote afterSlug))
  some (name, rest)
where
  unquote : Text → Option Text
    | c :: rest => if isQuote c then some rest else none
    | [] => none

/-- The older spelling of a placeholder. -/
def marker : Pattern Text := fun text => do
  let opened ← Text.after? "\x7b\x7b" text
  let label ← Text.after? "slot:" (Text.trimLeft opened)
  let (name, afterName) ← Pattern.run isSlugPart (Text.trimLeft label)
  let rest ← Text.after? "\x7d\x7d" (Text.trimLeft afterName)
  some (name, rest)

/-- Writes the older placeholders in the present spelling. -/
def normalize (template : Text) : Text :=
  Pattern.replace marker (fun name => "<slot name='" ++ name ++ "' />") template

/-- Puts every fill in place of its placeholder; a placeholder without a fill goes away. -/
def inject (template : Text) (slots : Bindings Text) : Text :=
  Pattern.replace placeholder (fun name => (slots.get? name).getD []) (normalize template)

end Slot

end ComponentPages
