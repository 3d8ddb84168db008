import ComponentPages.Proofs.Pattern
import ComponentPages.Proofs.Script.Nested
import ComponentPages.Proofs.Script.Runtime

/-!
Scripts that assign literals to signals at the top level. Every assignment is lowered to a declaring call, so of the
values that a signal is assigned the runtime keeps the first one.
-/
namespace ComponentPages

/-- Whether a text is a decimal integer, possibly with a minus sign. -/
def isIntegerLiteral : Text → Bool
  | '-' :: digits => !digits.isEmpty && digits.all Char.isDigit
  | digits => !digits.isEmpty && digits.all Char.isDigit

/-- An assignment `$name = literal;` and the white space around its parts. -/
structure Assignment where
  lead : Text
  name : Text
  beforeSign : Text
  afterSign : Text
  literal : Text
  beforeEnd : Text
deriving DecidableEq

namespace Assignment

/-- The value begins on the line of the equals sign and the semicolon stands on that line too. -/
structure IsSound (assignment : Assignment) : Prop where
  lead : IsSpace assignment.lead
  name : Text.isIdentifier assignment.name = true
  beforeSign : IsSpace assignment.beforeSign
  afterSign : ∀ c ∈ assignment.afterSign, isBlank c = true ∧ c ≠ '\n'
  literal : isIntegerLiteral assignment.literal = true
  beforeEnd : ∀ c ∈ assignment.beforeEnd, isBlank c = true ∧ c ≠ '\n'

/-- What stands between the equals sign and the semicolon. -/
def value (assignment : Assignment) : Text := assignment.afterSign ++ assignment.literal ++ assignment.beforeEnd

def print (assignment : Assignment) : Text :=
  assignment.lead ++ '$' :: assignment.name ++ assignment.beforeSign ++ '=' :: assignment.value ++ [';']

def printAll (assignments : List Assignment) : Text := assignments.flatMap print

/-- The call that an assignment is lowered to. -/
def toCall (assignment : Assignment) : RuntimeCall := ⟨true, assignment.name, assignment.literal⟩

/-- The value that the first of several assignments gives a signal. -/
def first? (assignments : List Assignment) (name : Text) : Option Text :=
  (assignments.find? fun assignment => assignment.name = name).map literal

/-- The value that the last of several assignments gives a signal. -/
def last? (assignments : List Assignment) (name : Text) : Option Text := first? assignments.reverse name

end Assignment

/-- The characters that begin or end something in a script, apart from letters and line breaks. -/
def punctuation : Text := "'\"`()[]\x7b\x7d/#.$;,"

/-- White space, digits and signs begin nothing in the dialect and end no value, line breaks apart. -/
def isInert (c : Char) : Bool := !List.elem c punctuation

theorem isInert_of_class {c : Char} {class_ : Char → Bool} (member : class_ c = true)
    (others : ∀ d ∈ punctuation, class_ d = false) : isInert c = true := by
  by_contra active
  have listed : c ∈ punctuation := List.mem_of_elem_eq_true (by simpa [isInert] using active)
  rw [others c listed] at member
  cases member

theorem isInert_of_isBlank {c : Char} (blank : isBlank c = true) : isInert c = true :=
  isInert_of_class blank (by decide)

theorem isInert_of_isDigit {c : Char} (digit : c.isDigit = true) : isInert c = true :=
  isInert_of_class digit (by decide)

theorem ne_of_isInert {c d : Char} (inert : isInert c = true) (active : isInert d = false) : c ≠ d := by
  rintro rfl
  rw [inert] at active
  cases active

section Inert

variable {c : Char} (inert : isInert c = true)
include inert

theorem isScriptQuote_of_isInert : isScriptQuote c = false := by
  simp [isScriptQuote, ne_of_isInert inert (d := '\'') (by decide), ne_of_isInert inert (d := '"') (by decide),
    ne_of_isInert inert (d := '`') (by decide)]

theorem Script.opensBracket_of_isInert : opensBracket c = false := by
  simp [opensBracket, ne_of_isInert inert (d := '(') (by decide), ne_of_isInert inert (d := '[') (by decide),
    ne_of_isInert inert (d := '\x7b') (by decide)]

theorem Script.closesBracket_of_isInert : closesBracket c = false := by
  simp [closesBracket, ne_of_isInert inert (d := ')') (by decide), ne_of_isInert inert (d := ']') (by decide),
    ne_of_isInert inert (d := '\x7d') (by decide)]

end Inert

namespace Script

theorem lexeme_of_plain {c : Char} (unquoted : isScriptQuote c = false) (others : c ∉ ("/#.$" : Text))
    (before : Option Char) (rest : Text) : lexeme before c rest = (.other c, rest) := by
  have slash : '/' ≠ c := fun same => others (by rw [← same]; decide)
  have hash : c ≠ '#' := fun same => others (by rw [same]; decide)
  have dot : c ≠ '.' := fun same => others (by rw [same]; decide)
  have dollar : '$' ≠ c := fun same => others (by rw [← same]; decide)
  have noSelector : selector (c :: rest) = none := by
    cases rest with
    | nil => rfl
    | cons d rest => simp [selector, hash, dot]
  have noSignal : signal (c :: rest) = none := by simp [signal, Text.after?, dollar]
  have line : Text.startsWith "//" (c :: rest) = false := by simp [Text.startsWith, Text.after?, slash]
  have block : Text.startsWith "/*" (c :: rest) = false := by simp [Text.startsWith, Text.after?, slash]
  rw [lexeme, unquoted, line, block]
  simp [guarded, binding, query, increment, write, read, noSelector, noSignal]

theorem lexeme_of_isInert {c : Char} (inert : isInert c = true) (before : Option Char) (rest : Text) :
    lexeme before c rest = (.other c, rest) := by
  apply lexeme_of_plain (isScriptQuote_of_isInert inert)
  intro member
  have active : ∀ d ∈ ("/#.$" : Text), isInert d = false := by decide
  exact ne_of_isInert inert (active c member) rfl

theorem lowerFrom_of_other {before : Option Char} {c d : Char} {tail rest : Text}
    (taken : lexeme before c tail = (.other d, rest)) (scope : Scope) (nested : Bool) (braces : Int) :
    lowerFrom scope nested before braces (c :: tail) = (do
      let braces := if d = '\x7b' then braces + 1 else if d = '\x7d' then braces - 1 else braces
      pure (d :: (← lowerFrom scope nested (some d) braces rest))) := by
  rw [lowerFrom]
  split
  next found rest' taken' =>
  rw [taken] at taken'
  cases taken'
  rfl

theorem lowerFrom_of_write {before : Option Char} {c : Char} {tail name rest value after lowered : Text}
    {scope : Scope} (taken : lexeme before c tail = (.write name none, rest))
    (parts : splitValue .code 0 rest = (value, after)) (solid : Text.trim value ≠ [])
    (unseeded : seed? scope true none (Text.trim value) = none)
    (inside : lowerFrom scope true none 0 (Text.trim value) = pure lowered) :
    lowerFrom scope false before 0 (c :: tail) = (do
      needRuntime
      declare name
      let later ← lowerFrom scope false value.getLast? 0 after
      pure (call "signal" name (some lowered) ++ later)) := by
  rw [lowerFrom]
  split
  next found rest' taken' =>
  rw [taken] at taken'
  cases taken'
  have topLevel : (!false && (0 : Int) == 0) = true := rfl
  simp only [parts, topLevel, unseeded]
  rw [if_neg solid, inside]
  simp only [writeSignal, if_true, pure_bind, bind_assoc, operated]

/-- Inert text is lowered to itself. -/
theorem lowerFrom_of_isInert {text : Text} (inert : ∀ c ∈ text, isInert c = true) (scope : Scope) (nested : Bool)
    (before : Option Char) (braces : Int) (rest : Text) :
    lowerFrom scope nested before braces (text ++ rest) =
      (text ++ ·) <$> lowerFrom scope nested (text.getLast?.or before) braces rest := by
  induction text generalizing before with
  | nil => simp
  | cons c text ih =>
    have here := inert c List.mem_cons_self
    have last : text.getLast?.or (some c) = (c :: text).getLast?.or before := by
      rw [List.getLast?_cons]
      cases text.getLast? <;> rfl
    rw [List.cons_append, lowerFrom_of_other (lexeme_of_isInert here before _),
      if_neg (ne_of_isInert here (by decide)), if_neg (ne_of_isInert here (by decide))]
    dsimp only
    rw [ih fun d member => inert d (List.mem_cons_of_mem c member), last, bind_map_left, map_eq_pure_bind]
    rfl

theorem splitValue_of_isInert {text : Text} (inert : ∀ c ∈ text, isInert c = true ∧ c ≠ '\n') (rest : Text) :
    splitValue .code 0 (text ++ ';' :: rest) = (text, ';' :: rest) := by
  induction text with
  | nil => rfl
  | cons c text ih =>
    obtain ⟨here, line⟩ := inert c List.mem_cons_self
    have goesOn : endsValue .code 0 c = false := by
      simp [endsValue, closesBracket_of_isInert here, line, ne_of_isInert here (d := ';') (by decide),
        ne_of_isInert here (d := ',') (by decide)]
    have code : ScriptState.code.step c = .code := by
      rw [ScriptState.step, isScriptQuote_of_isInert here]
      rfl
    have flat : bracketsAfter .code 0 c = 0 := by
      simp [bracketsAfter, opensBracket_of_isInert here, closesBracket_of_isInert here]
    rw [List.cons_append, splitValue, goesOn, code, flat, ih fun d member => inert d (List.mem_cons_of_mem c member)]
    rfl

theorem signal_name {name : Text} (identifier : Text.isIdentifier name = true) {rest : Text}
    (ends : ∀ c, rest.head? = some c → isIdentifierPart c = false) : signal ('$' :: name ++ rest) = some (name, rest) := by
  have stops : rest.head?.all (fun c => !isIdentifierPart c) = true := by
    cases rest with
    | nil => rfl
    | cons d rest => simp [ends d rfl]
  have marked : Text.after? "$" ('$' :: name ++ rest) = some (name ++ rest) := rfl
  rw [signal, marked, Option.bind_eq_bind, Option.bind_some, Pattern.identifier_append identifier stops]

/-- A name, white space and a single equals sign write a signal. -/
theorem lexeme_write {before : Option Char} (allowed : allowsSignal before = true) {name space rest : Text}
    (identifier : Text.isIdentifier name = true) (blank : IsSpace space) (single : rest.head? ≠ some '=') :
    lexeme before '$' (name ++ (space ++ '=' :: rest)) = (.write name none, rest) := by
  have named : signal ('$' :: name ++ (space ++ '=' :: rest)) = some (name, space ++ '=' :: rest) := by
    apply signal_name identifier
    intro c first
    cases space with
    | nil =>
      obtain rfl := Option.some.inj first
      decide
    | cons d space =>
      obtain rfl := Option.some.inj first
      by_contra part
      have solid := isBlank_of_isIdentifierPart (Bool.not_eq_false _ ▸ part)
      rw [blank d List.mem_cons_self] at solid
      cases solid
  have trimmed : Text.trimLeft (space ++ '=' :: rest) = '=' :: rest := Text.trimLeft_append_cons blank (by decide) rest
  have assigned : assignment ('=' :: rest) = some (none, rest) := by rw [assignment, if_neg single]
  have noSelector : selector ('$' :: name ++ (space ++ '=' :: rest)) = none := by
    cases name with
    | nil => cases identifier
    | cons c name => rfl
  have noBinding : binding ('$' :: name ++ (space ++ '=' :: rest)) = none := by rw [binding, noSelector]; rfl
  have noIncrement : increment ('$' :: name ++ (space ++ '=' :: rest)) = none := by
    rw [increment, named, Option.bind_eq_bind, Option.bind_some]
    simp [trimmed]
  have written : write ('$' :: name ++ (space ++ '=' :: rest)) = some (.write name none, rest) := by
    rw [write, named, Option.bind_eq_bind, Option.bind_some]
    simp [trimmed, assigned]
  have line : Text.startsWith "//" ('$' :: name ++ (space ++ '=' :: rest)) = false := rfl
  have block : Text.startsWith "/*" ('$' :: name ++ (space ++ '=' :: rest)) = false := rfl
  rw [lexeme, if_neg (by decide), ← List.cons_append, line, block]
  simp only [guarded, allowed, noBinding, noIncrement, written]
  simp

end Script

/-- A literal has no white space at its ends, is no name, and begins nothing in the dialect. -/
theorem isIntegerLiteral_parts {literal : Text} (integer : isIntegerLiteral literal = true) :
    literal ≠ [] ∧ ∀ c ∈ literal, c = '-' ∨ c.isDigit = true := by
  unfold isIntegerLiteral at integer
  split at integer
  · next digits =>
    simp only [Bool.and_eq_true, List.all_eq_true] at integer
    refine ⟨List.cons_ne_nil _ _, fun c member => ?_⟩
    rcases List.mem_cons.1 member with sign | digit
    · exact .inl sign
    · exact .inr (integer.2 c digit)
  · simp only [Bool.and_eq_true, List.all_eq_true, Bool.not_eq_true', List.isEmpty_eq_false_iff] at integer
    exact ⟨integer.1, fun c member => .inr (integer.2 c member)⟩

namespace Assignment

variable {assignment : Assignment}

theorem IsSound.solid (sound : assignment.IsSound) {c : Char} (member : c ∈ assignment.literal) :
    isBlank c = false ∧ isInert c = true ∧ c ≠ '\n' ∧ c ≠ ')' ∧ c ≠ '=' ∧ isIdentifierStart c = false := by
  rcases (isIntegerLiteral_parts sound.literal).2 c member with rfl | digit
  · decide
  · have other {d : Char} (foreign : d.isDigit = false) : c ≠ d := by
      rintro rfl
      rw [digit] at foreign
      cases foreign
    exact ⟨isBlank_of_isIdentifierPart (isIdentifierPart_of_isDigit digit), isInert_of_isDigit digit,
      other (by decide), other (by decide), other (by decide), isIdentifierStart_of_isDigit digit⟩

/-- Trimming what stands between the equals sign and the semicolon leaves the literal. -/
theorem IsSound.trim_value (sound : assignment.IsSound) : Text.trim assignment.value = assignment.literal := by
  have before : IsSpace assignment.afterSign := fun c member => (sound.afterSign c member).1
  have after : IsSpace assignment.beforeEnd := fun c member => (sound.beforeEnd c member).1
  have left : Text.trimLeft assignment.literal = assignment.literal := by
    obtain ⟨c, rest, same⟩ := List.exists_cons_of_ne_nil (isIntegerLiteral_parts sound.literal).1
    rw [same, Text.trimLeft_cons_of_not_blank (sound.solid (by rw [same]; exact List.mem_cons_self)).1]
  have right : Text.trimRight assignment.literal = assignment.literal := by
    obtain ⟨front, c, same⟩ :=
      (List.eq_nil_or_concat assignment.literal).resolve_left (isIntegerLiteral_parts sound.literal).1
    rw [List.concat_eq_append] at same
    rw [same, Text.trimRight_concat_of_not_blank (sound.solid (by rw [same]; simp)).1]
  rw [value, Text.trim_append_of_space _ after, Text.trim, Text.trimLeft_append_of_space before, left, right]

theorem IsSound.value_isInert (sound : assignment.IsSound) : ∀ c ∈ assignment.value, isInert c = true ∧ c ≠ '\n' := by
  intro c member
  rcases List.mem_append.1 member with front | after
  · rcases List.mem_append.1 front with before | inside
    · exact ⟨isInert_of_isBlank (sound.afterSign c before).1, (sound.afterSign c before).2⟩
    · exact ⟨(sound.solid inside).2.1, (sound.solid inside).2.2.1⟩
  · exact ⟨isInert_of_isBlank (sound.beforeEnd c after).1, (sound.beforeEnd c after).2⟩

theorem IsSound.unseeded (sound : assignment.IsSound) (scope : Scope) :
    Script.seed? scope true none assignment.literal = none := by
  obtain ⟨c, rest, same⟩ := List.exists_cons_of_ne_nil (isIntegerLiteral_parts sound.literal).1
  have start := (sound.solid (by rw [same]; exact List.mem_cons_self)).2.2.2.2.2
  have foreign : Text.isIdentifier assignment.literal = false := by rw [same, Text.isIdentifier, start]; rfl
  rw [Script.seed?, foreign]
  rfl

theorem IsSound.single (sound : assignment.IsSound) (rest : Text) : (assignment.value ++ rest).head? ≠ some '=' := by
  intro first
  obtain ⟨c, tail, same⟩ := List.exists_cons_of_ne_nil (isIntegerLiteral_parts sound.literal).1
  rw [value, same, List.append_assoc, List.append_assoc] at first
  cases spaces : assignment.afterSign with
  | nil =>
    rw [spaces] at first
    exact (sound.solid (by rw [same]; exact List.mem_cons_self)).2.2.2.2.1 (Option.some.inj first)
  | cons d space =>
    rw [spaces] at first
    have blank := (sound.afterSign d (by rw [spaces]; exact List.mem_cons_self)).1
    exact ne_of_class blank (by decide) (Option.some.inj first)

/-- What one assignment is lowered to: a declaring call in place of the write. -/
theorem IsSound.lowerFrom_print (sound : assignment.IsSound) (scope : Scope) {before : Option Char}
    (start : before = none ∨ before = some ';') (rest : Text) :
    Script.lowerFrom scope false before 0 (assignment.print ++ rest) = (do
      Script.needRuntime
      Script.declare assignment.name
      let later ← Script.lowerFrom scope false (some ';') 0 rest
      pure (RuntimeCall.printStatement assignment.lead assignment.toCall ++ later)) := by
  have whole : assignment.print ++ rest = assignment.lead ++
      '$' :: (assignment.name ++ (assignment.beforeSign ++ '=' :: (assignment.value ++ ';' :: rest))) := by
    simp [print]
  have allowed : Script.allowsSignal (assignment.lead.getLast?.or before) = true := by
    cases last : assignment.lead.getLast? with
    | none => rcases start with rfl | rfl <;> decide
    | some c =>
      have blank := sound.lead c (List.mem_of_getLast? last)
      simp [Script.allowsSignal, isWord_of_isBlank blank, ne_of_class blank (d := '$') (by decide)]
  have taken := Script.lexeme_write allowed sound.name sound.beforeSign (sound.single (';' :: rest))
  have parts := Script.splitValue_of_isInert sound.value_isInert rest
  have trimmed := sound.trim_value
  have solid : Text.trim assignment.value ≠ [] := by
    rw [trimmed]
    exact (isIntegerLiteral_parts sound.literal).1
  have unseeded : Script.seed? scope true none (Text.trim assignment.value) = none := by
    rw [trimmed]
    exact sound.unseeded scope
  have inside : Script.lowerFrom scope true none 0 (Text.trim assignment.value) = pure assignment.literal := by
    have kept := Script.lowerFrom_of_isInert (fun c member => (sound.solid member).2.1) scope true none 0 []
    rw [List.append_nil, Script.lowerFrom, map_pure, List.append_nil] at kept
    rw [trimmed]
    exact kept
  have semicolon : Script.lowerFrom scope false assignment.value.getLast? 0 (';' :: rest) = (do
      let later ← Script.lowerFrom scope false (some ';') 0 rest
      pure (';' :: later)) := by
    have taken (before : Option Char) : Script.lexeme before ';' rest = (.other ';', rest) :=
      Script.lexeme_of_plain (by decide) (by decide) before rest
    rw [Script.lowerFrom_of_other (taken _)]
    rfl
  rw [whole, Script.lowerFrom_of_isInert fun c member => isInert_of_isBlank (sound.lead c member),
    Script.lowerFrom_of_write taken parts solid unseeded inside, semicolon]
  have written (later : Text) : assignment.lead ++ (Script.call "signal" assignment.name (some assignment.literal) ++
      ';' :: later) = RuntimeCall.printStatement assignment.lead assignment.toCall ++ later := by
    rw [RuntimeCall.printStatement, List.append_assoc, List.append_assoc]
    rfl
  simp only [map_eq_pure_bind, bind_assoc, pure_bind, written]

/-- What a script of assignments is lowered to. -/
def lowered (assignments : List Assignment) : Text :=
  assignments.flatMap fun assignment => RuntimeCall.printStatement assignment.lead assignment.toCall

/-- What is found with an assignment: the name, if it is new, and the need of the runtime. -/
def record (found : Declarations) (assignment : Assignment) : Declarations :=
  ⟨if found.declared.contains assignment.name then found.declared else found.declared ++ [assignment.name], true⟩

theorem run_needRuntime_declare (assignment : Assignment) (next : Lowering Text) (found : Declarations) :
    (do
      Script.needRuntime
      Script.declare assignment.name
      next : Lowering Text).run.run found = next.run.run (record found assignment) := by
  have needed : Script.needRuntime.run.run found = (.ok (), { found with usesRuntime := true }) := rfl
  have declared : (Script.declare assignment.name).run.run { found with usesRuntime := true } =
      (.ok (), record found assignment) := by
    change (Except.ok (), if found.declared.contains assignment.name then _ else _) = _
    rw [record]
    split <;> rfl
  rw [Lowering.run_bind, needed]
  dsimp only
  rw [Lowering.run_bind, declared]

theorem run_lowerFrom_printAll (scope : Scope) {assignments : List Assignment}
    (sound : ∀ assignment ∈ assignments, assignment.IsSound) {tail : Text} (blank : IsSpace tail)
    {before : Option Char} (start : before = none ∨ before = some ';') (found : Declarations) :
    (Script.lowerFrom scope false before 0 (printAll assignments ++ tail)).run.run found =
      (.ok (lowered assignments ++ tail), assignments.foldl record found) := by
  induction assignments generalizing before found with
  | nil =>
    have kept := Script.lowerFrom_of_isInert (fun c member => isInert_of_isBlank (blank c member)) scope false before 0 []
    rw [List.append_nil, Script.lowerFrom, map_pure, List.append_nil] at kept
    change (Script.lowerFrom scope false before 0 tail).run.run found = _
    rw [kept]
    rfl
  | cons assignment assignments ih =>
    have whole : printAll (assignment :: assignments) ++ tail = assignment.print ++ (printAll assignments ++ tail) := by
      rw [printAll, List.flatMap_cons, List.append_assoc, printAll]
    have later := ih (fun other member => sound other (List.mem_cons_of_mem assignment member)) (.inr rfl)
      (record found assignment)
    rw [whole, (sound assignment List.mem_cons_self).lowerFrom_print scope start, run_needRuntime_declare,
      Lowering.run_bind, later, List.foldl_cons]
    have joined : lowered (assignment :: assignments) ++ tail =
        RuntimeCall.printStatement assignment.lead assignment.toCall ++ (lowered assignments ++ tail) := by
      rw [lowered, List.flatMap_cons, List.append_assoc, lowered]
    rw [joined]
    rfl

theorem readAll?_lowered {assignments : List Assignment} (sound : ∀ assignment ∈ assignments, assignment.IsSound)
    {tail : Text} (blank : IsSpace tail) :
    RuntimeCall.readAll? (lowered assignments ++ tail) = some (assignments.map toCall) := by
  induction assignments with
  | nil =>
    have read := RuntimeCall.readAll?_space blank []
    rw [List.append_nil] at read
    rw [lowered, List.flatMap_nil, List.nil_append, read, RuntimeCall.readAll?, RuntimeCall.readEach?]
    rfl
  | cons assignment assignments ih =>
    have here := sound assignment List.mem_cons_self
    have named : ∀ c ∈ assignment.toCall.name, c ≠ '\'' := by
      rintro c member rfl
      exact absurd ((isIdentifierPart_of_isIdentifier here.name).2 '\'' member) (by decide)
    have valued : ∀ c ∈ assignment.toCall.value, c ≠ ')' := fun c member => (here.solid member).2.2.2.1
    rw [lowered, List.flatMap_cons, List.append_assoc, RuntimeCall.readAll?_statement here.lead named valued, ← lowered,
      ih fun other member => sound other (List.mem_cons_of_mem assignment member)]
    rfl

/-- Script of top-level assignments is lowered to calls that, run on an empty store, leave each signal with the
value of the first assignment to it. A later assignment is lost. -/
theorem run_lower_printAll (scope : Scope) {assignments : List Assignment}
    (sound : ∀ assignment ∈ assignments, assignment.IsSound) (tail : Text) (blank : IsSpace tail)
    (found : Declarations) :
    ∃ script calls, ((Script.lower scope false (printAll assignments ++ tail)).run.run found).1 = .ok script ∧
      RuntimeCall.readAll? script = some calls ∧
      ∀ name, RuntimeCall.run (fun _ => none) calls name = first? assignments name := by
  refine ⟨lowered assignments ++ tail, assignments.map toCall, ?_, readAll?_lowered sound blank, fun name => ?_⟩
  · rw [Script.lower, run_lowerFrom_printAll scope sound blank (.inl rfl)]
  · have declare : ∀ call ∈ assignments.map toCall, call.declares = true := by
      intro call member
      obtain ⟨assignment, -, rfl⟩ := List.mem_map.1 member
      rfl
    rw [RuntimeCall.run_of_declares declare, Option.none_or, List.find?_map, Option.map_map]
    rfl

/-- Two values for one signal. -/
def conflicting : List Assignment := [⟨[], "a", " ", " ", "1", []⟩, ⟨" ", "a", " ", " ", "2", []⟩]

theorem isSound_of_mem_conflicting : ∀ assignment ∈ conflicting, assignment.IsSound := by
  intro assignment member
  rcases List.mem_cons.1 member with rfl | later
  · constructor <;> decide
  · obtain rfl := List.mem_singleton.1 later
    constructor <;> decide

theorem run_lower_conflicting :
    printAll conflicting ++ ([] : Text) = ("$a = 1; $a = 2;" : Text) ∧ last? conflicting "a" = some "2" ∧
      ∃ script calls, ((Script.lower [] false (printAll conflicting ++ [])).run.run {}).1 = .ok script ∧
        RuntimeCall.readAll? script = some calls ∧ RuntimeCall.run (fun _ => none) calls "a" = some "1" := by
  obtain ⟨script, calls, lowers, reads, leaves⟩ :=
    run_lower_printAll [] isSound_of_mem_conflicting [] (by decide) {}
  refine ⟨by decide, by decide, script, calls, lowers, reads, ?_⟩
  rw [leaves]
  decide

end Assignment

end ComponentPages
