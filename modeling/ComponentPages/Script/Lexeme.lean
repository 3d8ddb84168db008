import ComponentPages.Text.Pattern

/-!
Lexemes of the script dialect. On top of ordinary script text it has signals, written `$name`, and selectors,
written `#id`, `.class` and `.class*`, which may bind an event handler. Strings and comments are taken whole.
-/
namespace ComponentPages

inductive Lexeme where
  | verbatim (text : Text)
  | binding (selector : Text) (every : Bool) (event : Text)
  | increment (name : Text) (up : Bool)
  | write (name : Text) (operator : Option Char)
  | read (name : Text)
  | selector (selector : Text) (every : Bool)
  | other (c : Char)
deriving DecidableEq

def isScriptQuote (c : Char) : Bool := c == '\'' || c == '"' || c == '`'

/-- Whether a reader of script text is in code, in a string, or right after a backslash in a string. -/
inductive ScriptState where
  | code
  | string (quote : Char)
  | escaped (quote : Char)
deriving DecidableEq

namespace ScriptState

def step : ScriptState → Char → ScriptState
  | .code, c => if isScriptQuote c then .string c else .code
  | .string quote, c => if c = '\\' then .escaped quote else if c = quote then .code else .string quote
  | .escaped quote, _ => .string quote

end ScriptState

namespace Script

/-- Splits where a reader in a string is back in code; an unclosed string runs to the end. -/
def splitString (state : ScriptState) : Text → Text × Text
  | [] => ([], [])
  | c :: rest =>
    match state.step c with
    | .code => ([c], rest)
    | next =>
      let (inside, after) := splitString next rest
      (c :: inside, after)

/-- Splits before the first occurrence of a character. -/
def splitBefore (stop : Char) (text : Text) : Text × Text := (text.takeWhile (· != stop), text.dropWhile (· != stop))

/-- Splits after the end of a block comment; an unclosed comment runs to the end. -/
def splitComment : Text → Text × Text
  | [] => ([], [])
  | '*' :: '/' :: rest => (['*', '/'], rest)
  | c :: rest =>
    let (inside, after) := splitComment rest
    (c :: inside, after)

/-- The text up to the bracket that closes `depth` open ones outside strings, and what follows it. -/
def close? (opening closing : Char) (state : ScriptState) (depth : Nat) : Text → Option (Text × Text)
  | [] => none
  | c :: rest =>
    if state = .code ∧ c = closing ∧ depth = 1 then some ([], rest)
    else
      let depth :=
        if state = .code then
          if c = opening then depth + 1 else if c = closing then depth - 1 else depth
        else depth
      (close? opening closing (state.step c) depth rest).map fun (inside, after) => (c :: inside, after)

def opensBracket (c : Char) : Bool := c == '(' || c == '[' || c == '\x7b'

def closesBracket (c : Char) : Bool := c == ')' || c == ']' || c == '\x7d'

/-- How many brackets are open after a character; a bracket in a string does not count. -/
def bracketsAfter (state : ScriptState) (depth : Nat) (c : Char) : Nat :=
  if state = .code then
    if opensBracket c then depth + 1 else if closesBracket c then depth - 1 else depth
  else depth

/-- Whether the value of a write ends before a character: a semicolon, comma or line break outside brackets and
strings, or a bracket that closes what the write stands in. -/
def endsValue (state : ScriptState) (depth : Nat) (c : Char) : Bool :=
  state = .code && depth = 0 && (closesBracket c || c == ';' || c == '\n' || c == ',')

/-- Splits where the value of a write ends. -/
def splitValue (state : ScriptState) (depth : Nat) : Text → Text × Text
  | [] => ([], [])
  | c :: rest =>
    if endsValue state depth c then ([], c :: rest)
    else
      let (value, after) := splitValue (state.step c) (bracketsAfter state depth c) rest
      (c :: value, after)

/-- `#` or `.` and a name. -/
def selector : Pattern Text := fun
  | mark :: c :: rest =>
    if (mark == '#' || mark == '.') && isIdentifierStart c then
      some (mark :: c :: rest.takeWhile isSlugPart, rest.dropWhile isSlugPart)
    else none
  | _ => none

/-- An event name: `on` and at least one ASCII letter. -/
def event : Pattern Text := fun text => do
  let afterOn ← Text.after? "on" text
  let (letters, rest) ← Pattern.run Char.isAlpha afterOn
  some ("on" ++ letters, rest)

/-- Takes an asterisk off the front, if there is one. -/
def star : Text → Bool × Text
  | '*' :: rest => (true, rest)
  | text => (false, text)

/-- A selector, an event and the opening parenthesis of the handler. -/
def binding : Pattern Lexeme := fun text => do
  let (selector, afterSelector) ← selector text
  let (every, afterStar) := star afterSelector
  let (event, afterEvent) ← event (← Text.after? "." afterStar)
  let rest ← Text.after? "(" (Text.trimLeft afterEvent)
  some (.binding selector every event, rest)

/-- A selector on its own. Before an opening parenthesis the asterisk is no part of it, and without an asterisk
there it is a call and no selector. -/
def query : Pattern Lexeme := fun text => do
  let (selector, afterSelector) ← selector text
  let called (text : Text) := (Text.trimLeft text).head? == some '('
  let (every, afterStar) := star afterSelector
  if !called afterStar then some (.selector selector every, afterStar)
  else if every then some (.selector selector false, afterSelector)
  else none

def signal : Pattern Text := fun text => do Pattern.identifier (← Text.after? "$" text)

def increment : Pattern Lexeme := fun text => do
  let (name, afterName) ← signal text
  match Text.trimLeft afterName with
  | '+' :: '+' :: rest => some (.increment name true, rest)
  | '-' :: '-' :: rest => some (.increment name false, rest)
  | _ => none

/-- The operator and equals sign of a write; a second equals sign makes it a comparison. -/
def assignment : Pattern (Option Char) := fun
  | '=' :: rest => if rest.head? = some '=' then none else some (none, rest)
  | c :: '=' :: rest =>
    if ("-+*/%" : Text).elem c && rest.head? != some '=' then some (some c, rest) else none
  | _ => none

def write : Pattern Lexeme := fun text => do
  let (name, afterName) ← signal text
  let (operator, rest) ← assignment (Text.trimLeft afterName)
  some (.write name operator, rest)

def read : Pattern Lexeme := fun text => (signal text).map fun (name, rest) => (.read name, rest)

/-- Whether a selector may stand after a character: not where script text reads a member. -/
def allowsSelector (before : Option Char) : Bool :=
  before.all fun c => !isWord c && !("$)].'\"`" : Text).elem c

/-- Whether a signal may stand after a character: not within a name. -/
def allowsSignal (before : Option Char) : Bool := before.all fun c => !isWord c && c != '$'

/-- A pattern that is tried only where it is allowed. -/
def guarded {α : Type} (allowed : Bool) (read : Pattern α) : Pattern α := fun text =>
  if allowed then read text else none

/-- The lexeme at the front of a text, given the character before it. -/
def lexeme (before : Option Char) (c : Char) (rest : Text) : Lexeme × Text :=
  let text := c :: rest
  if isScriptQuote c then
    let (inside, after) := splitString (.string c) rest
    (.verbatim (c :: inside), after)
  else if Text.startsWith "//" text then
    let (inside, after) := splitBefore '\n' rest
    (.verbatim (c :: inside), after)
  else if Text.startsWith "/*" text then
    let (inside, after) := splitComment (rest.drop 1)
    (.verbatim ("/*" ++ inside), after)
  else
    let signals := allowsSignal before
    let selectors := allowsSelector before
    let dialect :=
      (guarded selectors binding text).or
      ((guarded signals increment text).or
      ((guarded signals write text).or
      ((guarded signals read text).or
      (guarded selectors query text))))
    match dialect with
    | some found => found
    | none => (.other c, rest)

open Pattern (Advances)

theorem selector_advances : Advances selector := by
  intro text value rest found
  unfold selector at found
  split at found
  · next mark c tail =>
    split at found
    · simp only [Option.some.injEq, Prod.mk.injEq] at found
      have shorter := Text.length_dropWhile_le isSlugPart tail
      rw [← found.2, List.length_cons, List.length_cons]
      omega
    · simp at found
  · simp at found

theorem event_advances : Advances event := by
  intro text value rest found
  simp only [event, bind, Option.bind_eq_some_iff, Prod.exists, Option.some.injEq, Prod.mk.injEq] at found
  obtain ⟨afterOn, onStart, letters, remainder, ran, -, rfl⟩ := found
  have first := Text.length_of_after? onStart
  have second := Pattern.run_advances _ _ _ _ ran
  omega

theorem length_star_le (text : Text) : (star text).2.length ≤ text.length := by
  unfold star
  split <;> simp

theorem binding_advances : Advances binding := by
  intro text value rest found
  simp only [binding, bind, Option.bind_eq_some_iff, Prod.exists, Option.some.injEq, Prod.mk.injEq] at found
  obtain ⟨name, afterSelector, selected, afterDot, dot, event, afterEvent, listened, remainder, opened, -, rfl⟩ :=
    found
  have first := selector_advances _ _ _ selected
  have second := length_star_le afterSelector
  have third := Text.length_of_after? dot
  have fourth := event_advances _ _ _ listened
  have fifth := Text.length_trimLeft_le afterEvent
  have sixth := Text.length_of_after? opened
  omega

theorem query_advances : Advances query := by
  intro text value rest found
  simp only [query, bind, Option.bind_eq_some_iff, Prod.exists] at found
  obtain ⟨name, afterSelector, selected, rest_found⟩ := found
  have first := selector_advances _ _ _ selected
  have second := length_star_le afterSelector
  split at rest_found
  · simp only [Option.some.injEq, Prod.mk.injEq] at rest_found
    rw [← rest_found.2]
    omega
  · split at rest_found
    · simp only [Option.some.injEq, Prod.mk.injEq] at rest_found
      rw [← rest_found.2]
      omega
    · simp at rest_found

theorem signal_advances : Advances signal := by
  intro text value rest found
  simp only [signal, bind, Option.bind_eq_some_iff] at found
  obtain ⟨afterMark, marked, named⟩ := found
  have first := Text.length_of_after? marked
  have second := Pattern.identifier_advances _ _ _ named
  omega

theorem increment_advances : Advances increment := by
  intro text value rest found
  simp only [increment, bind, Option.bind_eq_some_iff, Prod.exists] at found
  obtain ⟨name, afterName, named, stepped⟩ := found
  have first := signal_advances _ _ _ named
  have second := Text.length_trimLeft_le afterName
  split at stepped
  · next marks =>
    simp only [Option.some.injEq, Prod.mk.injEq] at stepped
    rw [marks, stepped.2] at second
    simp only [List.length_cons] at second
    omega
  · next marks =>
    simp only [Option.some.injEq, Prod.mk.injEq] at stepped
    rw [marks, stepped.2] at second
    simp only [List.length_cons] at second
    omega
  · simp at stepped

theorem assignment_advances : Advances assignment := by
  intro text value rest found
  unfold assignment at found
  split at found
  · split at found
    · simp at found
    · simp only [Option.some.injEq, Prod.mk.injEq] at found
      simp [← found.2]
  · split at found
    · simp only [Option.some.injEq, Prod.mk.injEq] at found
      simp only [← found.2, List.length_cons]
      omega
    · simp at found
  · simp at found

theorem write_advances : Advances write := by
  intro text value rest found
  simp only [write, bind, Option.bind_eq_some_iff, Prod.exists, Option.some.injEq, Prod.mk.injEq] at found
  obtain ⟨name, afterName, named, operator, remainder, assigned, -, rfl⟩ := found
  have first := signal_advances _ _ _ named
  have second := Text.length_trimLeft_le afterName
  have third := assignment_advances _ _ _ assigned
  omega

theorem read_advances : Advances read := by
  intro text value rest found
  simp only [read, Option.map_eq_some_iff, Prod.exists, Prod.mk.injEq] at found
  obtain ⟨name, remainder, named, -, rfl⟩ := found
  exact signal_advances _ _ _ named

theorem guarded_advances {α : Type} {allowed : Bool} {pattern : Pattern α} (advances : Advances pattern) :
    Advances (guarded allowed pattern) := by
  intro text value rest found
  unfold guarded at found
  split at found
  · exact advances _ _ _ found
  · simp at found

theorem length_splitString_le (state : ScriptState) (text : Text) :
    (splitString state text).2.length ≤ text.length := by
  induction text generalizing state with
  | nil => simp [splitString]
  | cons c rest ih =>
    unfold splitString
    split
    · simp
    · have later := ih (state.step c)
      simp only [List.length_cons]
      omega

theorem length_splitComment_le (text : Text) : (splitComment text).2.length ≤ text.length := by
  fun_induction splitComment text with
  | case1 => simp
  | case2 => simp; omega
  | case3 => simp_all; omega

/-- Every lexeme takes at least its first character. -/
theorem length_lexeme_le (before : Option Char) (c : Char) (rest : Text) :
    (lexeme before c rest).2.length ≤ rest.length := by
  unfold lexeme
  dsimp only
  split
  · exact length_splitString_le _ rest
  · split
    · exact Text.length_dropWhile_le _ rest
    · split
      · have shorter := length_splitComment_le (rest.drop 1)
        simp only [List.length_drop] at shorter
        dsimp only
        omega
      · split
        · next found dialect =>
          have advanced : found.2.length < (c :: rest).length := by
            obtain ⟨value, remainder⟩ := found
            rcases Option.or_eq_some_iff.1 dialect with bound | ⟨-, dialect⟩
            · exact guarded_advances binding_advances _ _ _ bound
            rcases Option.or_eq_some_iff.1 dialect with stepped | ⟨-, dialect⟩
            · exact guarded_advances increment_advances _ _ _ stepped
            rcases Option.or_eq_some_iff.1 dialect with written | ⟨-, dialect⟩
            · exact guarded_advances write_advances _ _ _ written
            rcases Option.or_eq_some_iff.1 dialect with got | ⟨-, dialect⟩
            · exact guarded_advances read_advances _ _ _ got
            · exact guarded_advances query_advances _ _ _ dialect
          simp only [List.length_cons] at advanced
          omega
        · exact Nat.le_refl _

end Script

end ComponentPages
