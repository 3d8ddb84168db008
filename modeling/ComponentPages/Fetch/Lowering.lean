import ComponentPages.BrowserScript
import ComponentPages.Compilation
import ComponentPages.Fetch.Element

/-!
Lowering of fetch elements. Each becomes an element with an id, followed by the script that fetches its data.
Inside it, the directives `suspense`, `fallback` and `for` become data attributes for that script; what they
stand on is hidden until the data has come, except for `suspense`.
-/
namespace ComponentPages

namespace Fetch

def isScriptNameStart (c : Char) : Bool := c.isAlpha || c == '_' || c == '$'

def isScriptNamePart (c : Char) : Bool := isWord c || c == '$'

/-- A name as scripts have it: its first character is an ASCII letter, `_` or `$`. -/
def scriptName : Pattern Text := fun
  | [] => none
  | c :: rest =>
    if isScriptNameStart c then some (c :: rest.takeWhile isScriptNamePart, rest.dropWhile isScriptNamePart)
    else none

def isScriptName (text : Text) : Bool :=
  match scriptName text with
  | some (_, rest) => rest.isEmpty
  | none => false

/-- The method and URL of a request; a URL alone means GET. -/
def readRequest (written : Text) : Except Failure (Text × Text) :=
  match Text.trimLeft written with
  | [] => .error (.emptyFetch written)
  | text =>
    let first := text.takeWhile (!isBlank ·)
    match Text.trim (text.dropWhile (!isBlank ·)) with
    | [] => .ok ("GET", first)
    | url =>
      if first.all Char.isAlpha then .ok (first.map Char.toUpper, url)
      else .error (.fetchMethod first written)

/-- Reads `item in source`, where the source is one or more names joined by dots. -/
def loopParts? (written : Text) : Option (Text × Text) := do
  let (item, afterItem) ← scriptName (Text.trimLeft written)
  let (_, word) ← Pattern.run isBlank afterItem
  let (_, path) ← Pattern.run isBlank (← Text.after? "in" word)
  let source := Text.trimRight path
  if (Text.pieces '.' source).all isScriptName then some (item, source) else none

/-- The item name and the source path of a loop. -/
def readLoop (written : Text) : Except Failure (Text × Text) :=
  match loopParts? written with
  | some parts => .ok parts
  | none => .error (.loopShape written)

/-- What an attribute becomes: its text, the loop it starts, and whether it hides its element. -/
structure Directive where
  written : Text
  loop? : Option Loop := none
  hides : Bool := false

/-- The data attributes of a loop. -/
def loopAttributes (loop : Loop) : Text :=
  "data-gtml-for=\"" ++ loop.templateId ++ "\" data-gtml-item=\"" ++ loop.item ++ "\" data-gtml-source=\"" ++
    loop.source ++ "\""

def directive (attr : Attribute) : Compile Directive :=
  if attr.name = "suspense" && attr.value.isNone then pure { written := "data-gtml-suspense" }
  else if attr.name = "fallback" && attr.value.isNone then
    pure { written := "data-gtml-fallback", hides := true }
  else
    match attr.name == "for", attr.text? with
    | true, some written => do
      let (item, source) ← Compile.lift (readLoop written)
      let templateId ← Compile.nextId "gtml-for"
      let loop : Loop := { templateId, item, source }
      pure { written := loopAttributes loop, loop? := some loop, hides := true }
    | _, _ => pure { written := attr.raw }

def isDirectiveName (name : Text) : Bool :=
  name == "suspense".toList || name == "fallback".toList || name == "for".toList

/-- Replaces the first element equal to `old`. -/
def replaceFirst (old new : Text) : List Text → List Text
  | [] => []
  | text :: rest => if text = old then new :: rest else text :: replaceFirst old new rest

/-- Hides an element by its style attribute, or by a new one when it has none with a value. -/
def hide (attributes : List Attribute) (written : List Text) : List Text :=
  let style := Attribute.find? "style" attributes
  match style, style.bind Attribute.text? with
  | some attr, some css => replaceFirst attr.raw ("style=\"display:none;" ++ css ++ "\"") written
  | _, _ => written ++ [("style=\"display:none\"" : Text)]

/-- Writes the attributes of a tag that has directives, and gives its loops. -/
def directiveAttributes (attributes : List Attribute) : Compile (List Text × List Loop) := do
  let directives ← attributes.mapM directive
  let written := directives.map Directive.written
  let loops := directives.filterMap Directive.loop?
  pure (if directives.any Directive.hides then hide attributes written else written, loops)

/-- Writes the rest of a body with its directives lowered, given its remaining tags. -/
def directivesFrom (body : Text) (position : Nat) : List Mark → Compile (Text × List Loop)
  | [] => pure (body.drop position, [])
  | mark :: rest =>
    if mark.offset < position then directivesFrom body position rest
    else
      match TagHead.read? mark.after with
      | none => pure (body.drop position, [])
      | some (head, _) => do
        Compile.note (Note.ofHead head)
        let attributes := Attribute.tokenize head
        if attributes.any fun attr => isDirectiveName attr.name then
          let (written, loops) ← directiveAttributes attributes
          let closing : Text := if TagHead.closesItself head then " /" else ""
          let tag := "<" ++ mark.name ++ " " ++ List.intercalate [' '] written ++ closing ++ ">"
          let (others, more) ← directivesFrom body (mark.offset + mark.name.length + head.length + 2) rest
          pure (Text.slice body position mark.offset ++ tag ++ others, loops ++ more)
        else directivesFrom body position rest

/-- The name that the fetched data is bound to. -/
def bindingName (attributes : List Attribute) : Text :=
  match (Attribute.find? "as" attributes).bind Attribute.text? with
  | none | some [] => "data"
  | some name => Text.trim name

/-- The spellings of the attributes that stay on the element. -/
def keptAttributes (attributes : List Attribute) : List Text :=
  (attributes.filter fun (attr : Attribute) => attr.name ≠ "fetch" ∧ attr.name ≠ "as").map Attribute.raw

/-- The id of a fetch element, its own or a new one, and the attributes it keeps. -/
def identify (attributes : List Attribute) : Compile (Text × List Text) :=
  let kept := keptAttributes attributes
  match (Attribute.find? "id" attributes).bind Attribute.text? with
  | none | some [] => do
    let id ← Compile.nextId "gtml-fetch"
    pure (id, ("id=\"" ++ id ++ "\"") :: kept)
  | some id => pure (id, kept)

/-- Writes one fetch element, whose body is lowered already, and its script. -/
def writeElement (texts : ScriptTexts) (name head body closeTag : Text) : Compile Text := do
  let attributes := Attribute.tokenize head
  let (method, url) ← Compile.lift (readRequest ((request? head).getD []))
  let binding := bindingName attributes
  if !isScriptName binding then throw (.fetchBinding binding)
  let (id, kept) ← identify attributes
  let (marked, loops) ← directivesFrom body 0 (tagMarks body)
  Compile.note [.fetchElement id method url binding loops.length]
  let element : FetchElement := { id, method, url, binding, loops }
  pure ("<" ++ name ++ " " ++ List.intercalate [' '] kept ++ ">" ++ marked ++ closeTag ++ "\n" ++
    texts.fetchScript element)

/-- What stands before a closing tag is shorter than the whole text. -/
theorem length_body_lt {html name : Text} {start : Nat} {close : Span}
    (closed : Tag.close? html name start = some close) :
    (Text.slice html start close.start).length < html.length := by
  have inside := Tag.bounds_of_closeFrom? closed
  simp only [Text.slice, List.length_drop, List.length_take] at inside ⊢
  omega

/-- Lowers the fetch elements from an offset on, the inner ones before the outer. -/
def lowerFrom (texts : ScriptTexts) (html : Text) (position : Nat) : Compile Text :=
  match _found : next? html position with
  | none => do
    Compile.note ((headsRead (elementMarks html position)).flatMap Note.ofHead)
    pure (html.drop position)
  | some site =>
    have _bounds := bounds_of_next? _found
    if TagHead.closesItself site.head then do
      Compile.note ((headsRead (elementMarks html position)).flatMap Note.ofHead)
      let written ← writeElement texts site.name site.head [] ("</" ++ site.name ++ ">")
      let rest ← lowerFrom texts html site.bodyStart
      pure (Text.slice html position site.offset ++ written ++ rest)
    else
      match _closed : Tag.close? html site.name site.bodyStart with
      | none => do
        Compile.note ((headsRead (elementMarks html position)).flatMap Note.ofHead)
        throw (.unclosedFetch site.name)
      | some close =>
        have _inside := Tag.bounds_of_closeFrom? _closed
        have _size := length_body_lt _closed
        do
        Compile.note ((headsRead (elementMarks html position)).flatMap Note.ofHead)
        let body ← lowerFrom texts (Text.slice html site.bodyStart close.start) 0
        let written ← writeElement texts site.name site.head body (Text.slice html close.start close.stop)
        let rest ← lowerFrom texts html close.stop
        pure (Text.slice html position site.offset ++ written ++ rest)
termination_by (html.length, html.length + 1 - position)
decreasing_by
  · apply Prod.Lex.right; omega
  · apply Prod.Lex.left; exact _size
  · apply Prod.Lex.right
    simp only [List.length_drop] at _inside
    omega

/-- Lowers every fetch element of a text. -/
def lower (texts : ScriptTexts) (html : Text) : Compile Text := lowerFrom texts html 0

end Fetch

end ComponentPages
