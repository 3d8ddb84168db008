import ComponentPages.Compilation
import ComponentPages.Placeholder
import ComponentPages.Script.Lowering

/-!
Signals in markup. Script blocks of the dialect and inline handlers are taken out of a template and queued as
scripts. A placeholder that names a signal the template declares becomes a marker, which no later pass reads as
a placeholder, and at the end an element that the runtime keeps up to date.
-/
namespace ComponentPages

namespace Signal

def markerOpen : Char := '\ue002'

def markerClose : Char := '\ue003'

/-- A script element of the dialect; gives its source. -/
def block : Pattern Text := fun text => do
  let afterScript ← Text.afterFolded? "script" (← Text.after? "<" text)
  if !afterScript.head?.any isBlank then none
  let afterType ← Text.afterFolded? "type" (Text.trimLeft afterScript)
  let afterEquals ← Text.after? "=" (Text.trimLeft afterType)
  let afterName ← Text.afterFolded? "gtml" (← unquote (Text.trimLeft afterEquals))
  let source ← Text.after? ">" (Text.trimLeft (← unquote afterName))
  let (contents, _, rest) ← Pattern.seek? (Block.closing? (Text.afterFolded? "script")) source
  some (contents, rest)
where
  unquote : Text → Option Text
    | c :: rest => if isQuote c then some rest else none
    | [] => none

/-- The function around a queued script. -/
def wrap (script : Text) : Text := "(function() \x7b\n" ++ script ++ "\n\x7d)();"

/-- Runs the lowering of a script and keeps what it declared. -/
def runLowering (found : Declarations) (lowering : Lowering Text) : Compile (Text × Declarations) :=
  match lowering.run.run found with
  | (.ok script, found) => pure (script, found)
  | (.error failure, _) => throw failure

/-- Queues the scripts of the dialect's script elements. -/
def queueBlocks (scope : Scope) (sources : List Text) : Compile Declarations :=
  sources.foldlM (fun found source => do
    if source.all isBlank then pure found
    else
      let (script, found) ← runLowering found (Script.lower scope false source)
      Compile.addScript (wrap (Text.trim script))
      pure found) {}

/-- The start of an inline handler: an event name, an equals sign and a brace. -/
def handlerStart : Pattern Text := fun text => do
  let (event, afterEvent) ← Script.event text
  let afterEquals ← Text.after? "=" (Text.trimLeft afterEvent)
  let body ← Text.after? "\x7b" (Text.trimLeft afterEquals)
  some (event, body)

/-- The parts of a template: single characters, inline handlers, and a handler whose braces do not close. -/
inductive Part where
  | plain (c : Char)
  | handler (event body : Text)
  | unclosed (event snippet : Text)
deriving DecidableEq

theorem handlerStart_advances : Pattern.Advances handlerStart := by
  intro text value rest found
  simp only [handlerStart, bind, Option.bind_eq_some_iff, Prod.exists, Option.some.injEq, Prod.mk.injEq] at found
  obtain ⟨event, afterEvent, listened, afterEquals, equals, body, opened, -, rfl⟩ := found
  have first := Script.event_advances _ _ _ listened
  have second := Text.length_trimLeft_le afterEvent
  have third := Text.length_of_after? equals
  have fourth := Text.length_trimLeft_le afterEquals
  have fifth := Text.length_of_after? opened
  omega

/-- A handler starts after white space, in the open tag of an element and outside script and style blocks. -/
def handlerHere? (blocks : List Span) (html : Text) (offset : Nat) (before : Option Char) (text : Text) :
    Option (Text × Text) :=
  (if before.any isBlank then handlerStart text else none).filter fun _ =>
    insideElementTag html offset && !covered blocks offset

theorem length_of_handlerHere? {blocks : List Span} {html : Text} {offset : Nat} {before : Option Char}
    {text event body : Text} (found : handlerHere? blocks html offset before text = some (event, body)) :
    body.length < text.length := by
  have starts := (Option.filter_eq_some_iff.1 found).1
  split at starts
  · exact handlerStart_advances _ _ _ starts
  · simp at starts

/-- The parts of the rest of a template, given the offset and the character before it. Nothing follows a
handler that is not closed. -/
def partsFrom (blocks : List Span) (html : Text) (offset : Nat) (before : Option Char) (text : Text) :
    List Part :=
  match text with
  | [] => []
  | c :: rest =>
    match _starts : handlerHere? blocks html offset before (c :: rest) with
    | none => .plain c :: partsFrom blocks html (offset + 1) (some c) rest
    | some (event, body) =>
      match _closed : Script.close? '\x7b' '\x7d' .code 1 body with
      | none => [.unclosed event ((c :: rest).take 60)]
      | some (inside, after) =>
        .handler event inside ::
          partsFrom blocks html (offset + (rest.length + 1 - after.length)) (some '\x7d') after
termination_by text.length
decreasing_by
  · simp
  · have start := length_of_handlerHere? _starts
    have close := Script.length_of_close? _closed
    omega

def parts (html : Text) : List Part := partsFrom (Block.spans html) html 0 none html

/-- The attribute that stands for an inline handler. -/
def handlerAttribute (event id : Text) : Text := "data-gtml-" ++ event ++ "='" ++ id ++ "'"

/-- The script that installs an inline handler. -/
def handlerScript (event id handler : Text) : Text :=
  Script.forEach ("document.querySelectorAll(\"[" ++ handlerAttribute event id ++ "]\")") event handler

/-- Writes one part, queueing the script of a handler. The id is drawn before the body is lowered. -/
def lowerPart (scope : Scope) (found : Declarations) : Part → Compile (Text × Declarations)
  | .plain c => pure ([c], found)
  | .handler written body => do
    let event := Text.lower written
    let id ← Compile.nextId "gtml-on"
    let (handler, found) ← runLowering found (Script.lowerHandler scope body)
    Compile.addScript (handlerScript event id handler)
    pure (handlerAttribute event id, found)
  | .unclosed event snippet => throw (.unclosedHandler event snippet)

def lowerParts (scope : Scope) (found : Declarations) : List Part → Compile (Text × Declarations)
  | [] => pure ([], found)
  | part :: rest => do
    let (first, found) ← lowerPart scope found part
    let (others, found) ← lowerParts scope found rest
    pure (first ++ others, found)

/-- A placeholder with nothing but an identifier in it. -/
def placeholder : Pattern Text := fun text => do
  let opened ← Text.after? "\x7b" text
  let (name, afterName) ← Pattern.identifier (Text.trimLeft opened)
  let rest ← Text.after? "\x7d" (Text.trimLeft afterName)
  some (name, rest)

/-- Marks the placeholders in reach that name one of the given signals. -/
def mark (html : Text) (names : List Text) : Text :=
  if names = [] then html
  else
    let blocks := Block.spans html
    (Pattern.located 0 (Pattern.segments placeholder html)).flatMap fun (offset, segment) =>
      match segment with
      | .plain c => [c]
      | .hit source name =>
        if names.contains name && !Placeholder.frozen blocks html offset then
          markerOpen :: name ++ [markerClose]
        else source

def marker : Pattern Text := fun text => do
  let opened ← Text.after? [markerOpen] text
  let (name, afterName) ← Pattern.run (fun c => c.isAlphanum || c == '_') opened
  let rest ← Text.after? [markerClose] afterName
  some (name, rest)

/-- The element that shows a signal. -/
def element (name : Text) : Text := "<span data-signal-value='" ++ name ++ "'></span>"

/-- Turns markers into elements. -/
def resolve (html : Text) : Text := Pattern.replace marker element html

/-- Takes scripts and inline handlers out of a template and marks its signals. -/
def lower (html : Text) (scope : Scope) : Compile Text := do
  let found ← queueBlocks scope (Pattern.values block html)
  let (lowered, found) ← lowerParts scope found (parts (Pattern.erase block html))
  if found.usesRuntime then Compile.needSignals
  if found.declared ≠ [] then Compile.note [.declaredSignals found.declared]
  pure (mark lowered found.declared)

end Signal

end ComponentPages
