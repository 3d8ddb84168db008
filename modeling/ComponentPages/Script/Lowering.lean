import ComponentPages.Failure
import ComponentPages.Script.Lexeme

/-!
Lowering of the script dialect to browser script over the signal runtime. A write at the top level of a
script declares its signal; inside braces, in handlers and in the values of other writes it only sets it.
What was declared before a failure stays declared.
-/
namespace ComponentPages

/-- What lowering has found so far: the declared signals in order, and whether the runtime is needed. -/
structure Declarations where
  declared : List Text := []
  usesRuntime : Bool := false
deriving DecidableEq

abbrev Lowering := ExceptT Failure (StateM Declarations)

namespace Script

/-- Removes spaces and tabs and then one semicolon, if that is what follows a binding. -/
def afterBinding (text : Text) : Option Char × Text :=
  match text.dropWhile fun c => c == ' ' || c == '\t' with
  | ';' :: rest => (some ';', rest)
  | _ => (some ')', text)

def call (function name : Text) (argument? : Option Text) : Text :=
  let argument := match argument? with
    | some argument => ", " ++ argument
    | none => []
  "gtml." ++ function ++ "('" ++ name ++ "'" ++ argument ++ ")"

def getCall (name : Text) : Text := call "get" name none

/-- Script that changes a signal by one. -/
def incrementCall (name : Text) (up : Bool) : Text :=
  call "set" name (some (getCall name ++ " " ++ [if up then '+' else '-'] ++ " 1"))

/-- Script that selects one element or all. -/
def queryCall (selector : Text) (every : Bool) : Text :=
  "document.querySelector" ++ (if every then "All" else "") ++ "('" ++ selector ++ "')"

/-- Script that runs a handler assignment on every element of a selection. -/
def forEach (selection event handler : Text) : Text :=
  selection ++ ".forEach(function(el) \x7b el." ++ event ++ " = " ++ handler ++ "; \x7d);"

def bindingCall (selector : Text) (every : Bool) (event handler : Text) : Text :=
  if every then forEach (queryCall selector true) event handler
  else queryCall selector false ++ "." ++ event ++ " = " ++ handler ++ ";"

/-- The literal of a value, safe inside a script element. -/
def seed (value : Value) : Text := Text.replace "</" "<\\/" value.literal

/-- The value that a top-level write without an operator copies from the scope, when it names one. -/
def seed? (scope : Scope) (topLevel : Bool) (operator : Option Char) (raw : Text) : Option Text :=
  if topLevel && operator.isNone && Text.isIdentifier raw then (scope.lookup raw).map seed else none

/-- The value to write, given the lowered right-hand side. -/
def operated (name : Text) (operator : Option Char) (value : Text) : Text :=
  match operator with
  | none => value
  | some operator => getCall name ++ " " ++ [operator] ++ " (" ++ value ++ ")"

def needRuntime : Lowering Unit := modify fun found => { found with usesRuntime := true }

def declare (name : Text) : Lowering Unit :=
  modify fun found =>
    if found.declared.contains name then found else { found with declared := found.declared ++ [name] }

/-- Script that gives a signal a value; at the top level it also declares the signal. -/
def writeSignal (topLevel : Bool) (name value : Text) : Lowering Text :=
  if topLevel then do
    declare name
    pure (call "signal" name (some value))
  else pure (call "set" name (some value))

theorem length_of_close? {opening closing : Char} {state : ScriptState} {depth : Nat} {text inside after : Text}
    (closed : close? opening closing state depth text = some (inside, after)) :
    inside.length + after.length < text.length := by
  induction text generalizing state depth inside with
  | nil => simp [close?] at closed
  | cons c rest ih =>
    unfold close? at closed
    split at closed
    · simp only [Option.some.injEq, Prod.mk.injEq] at closed
      obtain ⟨rfl, rfl⟩ := closed
      simp
    · obtain ⟨⟨first, second⟩, later, same⟩ := Option.map_eq_some_iff.1 closed
      simp only [Prod.mk.injEq] at same
      obtain ⟨rfl, rfl⟩ := same
      have shorter := ih later
      simp only [List.length_cons]
      omega

theorem length_splitValue (state : ScriptState) (depth : Nat) (text : Text) :
    (splitValue state depth text).1.length + (splitValue state depth text).2.length = text.length := by
  induction text generalizing state depth with
  | nil => simp [splitValue]
  | cons c rest ih =>
    unfold splitValue
    split
    · simp
    · have later := ih (state.step c) (bracketsAfter state depth c)
      simp only [List.length_cons]
      omega

theorem length_afterBinding_le (text : Text) : (afterBinding text).2.length ≤ text.length := by
  have blank := Text.length_dropWhile_le (fun c => c == ' ' || c == '\t') text
  unfold afterBinding
  split
  · next rest start =>
    have size := congrArg List.length start
    simp only [List.length_cons] at size
    dsimp only
    omega
  · exact Nat.le_refl _

/-- Lowers a source from a place on, given the character before it and the number of open braces. -/
def lowerFrom (scope : Scope) (nested : Bool) (before : Option Char) (braces : Int) (source : Text) :
    Lowering Text :=
  match source with
  | [] => pure []
  | c :: tail =>
    match _taken : lexeme before c tail with
    | (found, rest) =>
      have shorter : rest.length ≤ tail.length := by
        have bound := length_lexeme_le before c tail
        rw [_taken] at bound
        exact bound
      match found with
      | .verbatim text => do
        pure (text ++ (← lowerFrom scope nested text.getLast? braces rest))
      | .binding selector every event =>
        match _closed : close? '(' ')' .code 1 rest with
        | none => throw (.unclosedBinding event ((c :: tail).take 60))
        | some (inside, after) =>
          have parts := length_of_close? _closed
          have remainder := length_afterBinding_le after
          do
          let handler ← lowerFrom scope true none 0 inside
          let next := afterBinding after
          let written := bindingCall selector every (Text.lower event) (Text.trim handler)
          pure (written ++ (← lowerFrom scope nested next.1 braces next.2))
      | .increment name up => do
        needRuntime
        let last := if up then '+' else '-'
        pure (incrementCall name up ++ (← lowerFrom scope nested (some last) braces rest))
      | .write name operator =>
        have sizes := length_splitValue .code 0 rest
        have trimmed := Text.length_trim_le (splitValue .code 0 rest).1
        let parts := splitValue .code 0 rest
        let raw := Text.trim parts.1
        let topLevel := !nested && braces == 0
        if raw = [] then
          throw (.missingSignalValue name ((c :: tail).take (tail.length + 1 - parts.2.length)))
        else do
          needRuntime
          let value ← match seed? scope topLevel operator raw with
            | some literal => pure literal
            | none => lowerFrom scope true none 0 raw
          let written ← writeSignal topLevel name (operated name operator value)
          pure (written ++ (← lowerFrom scope nested parts.1.getLast? braces parts.2))
      | .read name => do
        needRuntime
        pure (getCall name ++ (← lowerFrom scope nested name.getLast? braces rest))
      | .selector selector every => do
        let last := if every then some '*' else selector.getLast?
        pure (queryCall selector every ++ (← lowerFrom scope nested last braces rest))
      | .other d => do
        let braces := if d = '\x7b' then braces + 1 else if d = '\x7d' then braces - 1 else braces
        pure (d :: (← lowerFrom scope nested (some d) braces rest))
termination_by source.length
decreasing_by
  all_goals simp only [List.length_cons]
  all_goals omega

/-- Lowers a source; `nested` marks handlers and right-hand sides, where a write never declares. -/
def lower (scope : Scope) (nested : Bool) (source : Text) : Lowering Text :=
  lowerFrom scope nested none 0 source

/-- Skips `async` and white space, when both are there. -/
def afterAsync (text : Text) : Text :=
  match Text.after? "async" text with
  | some rest => if rest.head?.any isBlank then Text.trimLeft rest else text
  | none => text

/-- Whether a text starts with the keyword of a function. -/
def startsFunction (text : Text) : Bool :=
  match Text.after? "function" text with
  | some rest => !rest.head?.any isWord
  | none => false

/-- Whether a text starts with the parameters and the arrow of an arrow function. -/
def startsArrow (text : Text) : Bool :=
  let opened := (Text.after? "(" text).getD text
  let afterNames := opened.dropWhile fun c => isWord c || c == '$' || c == ',' || isBlank c
  let closed := (Text.after? ")" afterNames).getD afterNames
  Text.startsWith "=>" (Text.trimLeft closed)

/-- Whether a handler body is a function already. -/
def isFunction (body : Text) : Bool :=
  let bare := afterAsync body
  startsFunction bare || startsArrow bare || startsArrow body

/-- Lowers a handler body to a function expression. -/
def lowerHandler (scope : Scope) (body : Text) : Lowering Text := do
  let body := Text.trim body
  let lowered ← lower scope true body
  if isFunction body then pure lowered
  else pure ("function(event) \x7b " ++ lowered ++ " \x7d")

end Script

end ComponentPages
