import ComponentPages.Proofs.Bindings
import ComponentPages.Proofs.Checked.Attribute
import ComponentPages.Proofs.Script.Enclosed
import ComponentPages.Proofs.Script.Nested

/-!
The script dialect, lowered with checked operations. Strings are skipped from quote to quote, also where a backslash or
an open string takes the reader behind the end of the text; parentheses, values and the ends of bindings are read from
indices that the scans before them give.
-/
namespace ComponentPages

namespace Text

/-- What is left of a text, placed by its length. -/
theorem drop_of_suffix {text rest : Text} {start : Nat} (left : rest <:+ text.drop start) :
    text.drop (text.length - rest.length) = rest :=
  (List.suffix_iff_eq_drop.1 (left.trans (List.drop_suffix start text))).symm

theorem length_of_drop {text rest : Text} {start : Nat} {c : Char} (stands : text.drop start = c :: rest) :
    start + 1 + rest.length = text.length := by
  have size := congrArg List.length stands
  rw [List.length_drop, List.length_cons] at size
  omega

end Text

namespace Script

theorem eq_of_splitString (state : ScriptState) (text : Text) :
    (splitString state text).1 ++ (splitString state text).2 = text := by
  induction text generalizing state with
  | nil => rfl
  | cons c rest ih =>
    rw [splitString]
    split
    · rfl
    · exact congrArg (c :: ·) (ih (state.step c))

/-- A bracket is closed behind the string that a reader is in. -/
theorem close?_splitString {opening closing : Char} {state : ScriptState} (inside : state ≠ .code) (depth : Nat)
    (text : Text) : close? opening closing state depth text =
      (close? opening closing .code depth (splitString state text).2).map (prepend (splitString state text).1) := by
  induction text generalizing state with
  | nil => rfl
  | cons c rest ih =>
    rw [close?_inside inside, splitString]
    split
    · next ends => rw [ends]
    · next stays =>
      rw [ih stays, map_prepend_prepend]
      rfl

/-- A value ends behind the string that a reader is in. -/
theorem splitValue_splitString {state : ScriptState} (inside : state ≠ .code) (depth : Nat) (text : Text) :
    (splitValue state depth text).2 = (splitValue .code depth (splitString state text).2).2 := by
  induction text generalizing state with
  | nil => rfl
  | cons c rest ih =>
    rw [splitValue, endsValue, decide_eq_false inside, Bool.false_and, Bool.false_and, if_neg Bool.false_ne_true,
      bracketsAfter, if_neg inside, splitString]
    change (splitValue (state.step c) depth rest).2 = _
    split
    · next ends => rw [ends]
    · next stays => exact ih stays

theorem exists_of_binding {text rest : Text} {found : Lexeme} (bound : binding text = some (found, rest)) :
    ∃ front, text = front ++ '(' :: rest := by
  simp only [binding, bind, Option.bind_eq_some_iff, Prod.exists, Option.some.injEq, Prod.mk.injEq] at bound
  obtain ⟨chosen, afterSelector, selected, afterDot, dot, event, afterEvent, listened, remainder, opened, -, rfl⟩ := bound
  have parenthesis : ("(" : Text) = ['('] := rfl
  rw [parenthesis] at opened
  have opens : Text.trimLeft afterEvent = '(' :: remainder := Text.eq_of_after? opened
  have ends : '(' :: remainder <:+ text := by
    calc
      '(' :: remainder = Text.trimLeft afterEvent := opens.symm
      _ <:+ afterEvent := List.dropWhile_suffix isBlank
      _ <:+ afterDot := ⟨event, (Signal.event_eq_some_iff.1 listened).2.1.symm⟩
      _ <:+ (star afterSelector).2 := ⟨_, (Text.eq_of_after? dot).symm⟩
      _ <:+ afterSelector := by
        obtain ⟨stars, whole, -⟩ := keeps_star afterSelector
        exact ⟨stars, whole.symm⟩
      _ <:+ text := ⟨chosen, (eq_of_selector selected).2.1.symm⟩
  obtain ⟨front, whole⟩ := ends
  exact ⟨front, whole.symm⟩

/-- A binding ends with the parenthesis that its handler stands in. -/
theorem exists_of_lexeme_binding {before : Option Char} {c : Char} {tail rest selector event : Text} {every : Bool}
    (taken : lexeme before c tail = (.binding selector every event, rest)) : ∃ front, c :: tail = front ++ '(' :: rest := by
  rcases exists_pattern_of_lexeme taken with ⟨text, same⟩ | same | ⟨pattern, member, here⟩
  · cases same
  · cases same
  simp only [List.mem_cons, List.not_mem_nil, or_false] at member
  rcases member with rfl | rfl | rfl | rfl | rfl
  · exact exists_of_binding here
  · simp only [increment, bind, Option.bind_eq_some_iff, Prod.exists] at here
    obtain ⟨_, _, -, stepped⟩ := here
    split at stepped <;> cases stepped
  · simp [write, Option.bind_eq_some_iff] at here
  · simp [Script.read] at here
  · simp only [query, bind, Option.bind_eq_some_iff, Prod.exists] at here
    obtain ⟨_, _, -, chose⟩ := here
    split at chose
    · cases chose
    · split at chose <;> cases chose

/-- Lowering goes on behind the first lexeme. -/
theorem lowerFrom_cons {before : Option Char} {c : Char} {tail rest : Text} {found : Lexeme}
    (taken : lexeme before c tail = (found, rest)) (scope : Scope) (nested : Bool) (braces : Int) :
    lowerFrom scope nested before braces (c :: tail) =
      (match found with
      | .verbatim text => do
        pure (text ++ (← lowerFrom scope nested text.getLast? braces rest))
      | .binding selector every event =>
        match close? '(' ')' .code 1 rest with
        | none => throw (.unclosedBinding event ((c :: tail).take 60))
        | some (inside, after) => do
          let handler ← lowerFrom scope true none 0 inside
          let written := bindingCall selector every (Text.lower event) (Text.trim handler)
          pure (written ++ (← lowerFrom scope nested (afterBinding after).1 braces (afterBinding after).2))
      | .increment name up => do
        needRuntime
        pure (incrementCall name up ++ (← lowerFrom scope nested (some (if up then '+' else '-')) braces rest))
      | .write name operator =>
        if Text.trim (splitValue .code 0 rest).1 = [] then
          throw (.missingSignalValue name ((c :: tail).take (tail.length + 1 - (splitValue .code 0 rest).2.length)))
        else do
          needRuntime
          let value ← match seed? scope (!nested && braces == 0) operator (Text.trim (splitValue .code 0 rest).1) with
            | some literal => pure literal
            | none => lowerFrom scope true none 0 (Text.trim (splitValue .code 0 rest).1)
          let written ← writeSignal (!nested && braces == 0) name (operated name operator value)
          pure (written ++ (← lowerFrom scope nested (splitValue .code 0 rest).1.getLast? braces (splitValue .code 0 rest).2))
      | .read name => do
        needRuntime
        pure (getCall name ++ (← lowerFrom scope nested name.getLast? braces rest))
      | .selector selector every => do
        pure (queryCall selector every ++ (← lowerFrom scope nested (if every then some '*' else selector.getLast?) braces rest))
      | .other d => do
        let braces := if d = '\x7b' then braces + 1 else if d = '\x7d' then braces - 1 else braces
        pure (d :: (← lowerFrom scope nested (some d) braces rest))) := by
  rw [lowerFrom]
  split
  next found' rest' taken' =>
  rw [taken] at taken'
  cases taken'
  cases found with
  | binding selector every event =>
    dsimp only
    split
    · next none => rw [none]
    · next inside after closed => rw [closed]
  | _ => rfl

end Script

namespace Checked

open Guarded (embed check)
open Script (splitString splitValue close? opensBracket closesBracket lexeme afterBinding seed bindingCall incrementCall
  getCall queryCall operated writeSignal needRuntime lowerFrom)

/-- One character of a string; a backslash takes the next character with it. -/
def stringTurn (text : Text) (quote : Char) (_ : Unit) (index : Nat) : Checked (Turn (Unit × Nat) Nat) := do
  let c ← charAt text index
  if c = '\\' then .ok (.next ((), index + 2))
  else if c = quote then .ok (.stop (index + 1))
  else .ok (.next ((), index + 1))

/-- The index behind the string whose quote stands at an index; an unclosed string runs to the end. -/
def stringEnd (text : Text) (start : Nat) : Checked Nat := do
  let quote ← charAt text start
  loop text (stringTurn text quote) (fun _ _ => text.length) () (start + 1)

/-- One step on the way to a closing bracket: a string, or a character outside of strings. -/
def enclosureTurn (opening closing : Char) (text : Text) (depth index : Nat) :
    Checked (Turn (Nat × Nat) (Option Nat)) := do
  let c ← charAt text index
  if isScriptQuote c then
    let stop ← stringEnd text index
    .ok (.next (depth, stop))
  else if c = opening then .ok (.next (depth + 1, index + 1))
  else if c = closing then
    if depth = 1 then .ok (.stop (some index)) else .ok (.next (depth - 1, index + 1))
  else .ok (.next (depth, index + 1))

/-- The offset of the bracket that closes the one at an offset, past strings. -/
def enclosureEnd (opening closing : Char) (text : Text) (start : Nat) : Checked (Option Nat) :=
  loop text (enclosureTurn opening closing text) (fun _ _ => none) 0 start

/-- One step through the value of a write: a string, or a character outside of strings. -/
def valueTurn (text : Text) (depth index : Nat) : Checked (Turn (Nat × Nat) Nat) := do
  let c ← charAt text index
  if isScriptQuote c then
    let stop ← stringEnd text index
    .ok (.next (depth, stop))
  else if opensBracket c then .ok (.next (depth + 1, index + 1))
  else if closesBracket c then
    if depth = 0 then .ok (.stop index) else .ok (.next (depth - 1, index + 1))
  else if depth = 0 && (c == ';' || c == '\n' || c == ',') then .ok (.stop index)
  else .ok (.next (depth, index + 1))

/-- Where the value ends that starts at an index. -/
def valueEnd (text : Text) (start : Nat) : Checked Nat :=
  loop text (valueTurn text) (fun _ _ => text.length) 0 start

/-- Where a binding ends whose parenthesis is closed at an index: behind a semicolon, if one follows. -/
def bindingEnd (source : Text) (close : Nat) : Checked (Option Char × Nat) := do
  let cursor ← runEnd (fun c => c == ' ' || c == '\t') source (close + 1)
  if ← standsAt ';' source cursor then .ok (some ';', cursor + 1) else .ok (some ')', close + 1)

/-- The lexeme at an index, and the index behind it. -/
def lexemeAt (before : Option Char) (source : Text) (index : Nat) : Checked (Lexeme × Nat) := do
  let c ← charAt source index
  if isScriptQuote c then
    let stop ← stringEnd source index
    .ok (.verbatim (Text.slice source index stop), stop)
  else
    let (found, rest) := lexeme before c (source.drop (index + 1))
    .ok (found, source.length - rest.length)

/-- The value that a top-level write without an operator copies from the scope, when it names one. -/
def seed? (scope : Scope) (topLevel : Bool) (operator : Option Char) (raw : Text) : Checked (Option Text) :=
  if topLevel && operator.isNone && Text.isIdentifier raw && Bindings.binds raw scope then
    (lookup raw scope).map fun value => some (seed value)
  else .ok none

/-- Lowers a source from an index on, given the character before it and the number of open braces. -/
def lowerAt (scope : Scope) (nested : Bool) (source : Text) (before : Option Char) (braces : Int) (index : Nat) :
    Guarded Lowering Text :=
  if _inside : index < source.length then do
    let (found, next) ← check (lexemeAt before source index)
    if _onward : index < next then
      match found with
      | .verbatim text => do
        pure (text ++ (← lowerAt scope nested source text.getLast? braces next))
      | .binding selector every event => do
        match ← check (enclosureEnd '(' ')' source (next - 1)) with
        | none => embed (throw (.unclosedBinding event (Text.slice source index (index + 60))))
        | some close =>
          let inside := Text.slice source next close
          if _deeper : inside.length < source.length then
            let handler ← lowerAt scope true inside none 0 0
            let (last, stop) ← check (bindingEnd source close)
            if _onward : index < stop then
              let written := bindingCall selector every (Text.lower event) (Text.trim handler)
              pure (written ++ (← lowerAt scope nested source last braces stop))
            else check (.error .endless)
          else check (.error .endless)
      | .increment name up => do
        embed needRuntime
        let last := if up then '+' else '-'
        pure (incrementCall name up ++ (← lowerAt scope nested source (some last) braces next))
      | .write name operator => do
        let stop ← check (valueEnd source next)
        let value := Text.slice source next stop
        let raw := Text.trim value
        let topLevel := !nested && braces == 0
        if raw = [] then embed (throw (.missingSignalValue name (Text.slice source index stop)))
        else if _deeper : raw.length < source.length ∧ index < stop then
          embed needRuntime
          let lowered ← match ← check (seed? scope topLevel operator raw) with
            | some literal => pure literal
            | none => lowerAt scope true raw none 0 0
          let written ← embed (writeSignal topLevel name (operated name operator lowered))
          pure (written ++ (← lowerAt scope nested source value.getLast? braces stop))
        else check (.error .endless)
      | .read name => do
        embed needRuntime
        pure (getCall name ++ (← lowerAt scope nested source name.getLast? braces next))
      | .selector selector every => do
        let last := if every then some '*' else selector.getLast?
        pure (queryCall selector every ++ (← lowerAt scope nested source last braces next))
      | .other d => do
        let braces := if d = '\x7b' then braces + 1 else if d = '\x7d' then braces - 1 else braces
        pure (d :: (← lowerAt scope nested source (some d) braces next))
    else check (.error .endless)
  else pure []
termination_by (source.length, source.length - index)
decreasing_by
  all_goals first
    | exact Prod.Lex.left _ _ (by assumption)
    | exact Prod.Lex.left _ _ _deeper.1
    | exact Prod.Lex.right _ (by omega)

/-- Lowers a handler body to a function expression. -/
def lowerHandler (scope : Scope) (body : Text) : Guarded Lowering Text := do
  let body := Text.trim body
  let lowered ← lowerAt scope true body none 0 0
  if Script.isFunction body then pure lowered
  else pure ("function(event) \x7b " ++ lowered ++ " \x7d")

theorem stringEnd_eq {text rest : Text} {start : Nat} {quote : Char} (stands : text.drop start = quote :: rest) :
    stringEnd text start = .ok (text.length - (splitString (.string quote) rest).2.length) := by
  have behind := Text.drop_succ_of_cons stands
  rw [stringEnd, charAt_of_drop stands, ok_bind, ← behind]
  refine loop_eq (fun _ _ rest => text.length - (splitString (.string quote) rest).2.length)
    (fun _ _ => by rw [splitString, List.length_nil, Nat.sub_zero]) (fun _ index c rest stands => ?_) () (start + 1)
  have size := Text.length_of_drop stands
  have next := Text.drop_succ_of_cons stands
  rw [stringTurn, charAt_of_drop stands, ok_bind, splitString, ScriptState.step]
  by_cases escapes : c = '\\'
  · rw [if_pos escapes, if_pos escapes]
    refine .inr ⟨(), index + 2, rfl, by omega, ?_⟩
    have later : text.drop (index + 2) = rest.tail := by rw [← next, List.tail_drop]
    rw [later]
    cases rest with
    | nil => rfl
    | cons d rest => rfl
  · rw [if_neg escapes, if_neg escapes]
    by_cases closes : c = quote
    · rw [if_pos closes, if_pos closes]
      exact .inl (by rw [show index + 1 = text.length - rest.length by omega])
    · rw [if_neg closes, if_neg closes]
      exact .inr ⟨(), index + 1, rfl, by omega, by rw [next]⟩

/-- Behind a string stands what splitting it off leaves. -/
theorem stringEnd_spec {text rest : Text} {start : Nat} {quote : Char} (stands : text.drop start = quote :: rest) :
    ∃ stop, stringEnd text start = .ok stop ∧ start + 1 + (splitString (.string quote) rest).1.length = stop ∧
      text.drop stop = (splitString (.string quote) rest).2 ∧
      Text.slice text start stop = quote :: (splitString (.string quote) rest).1 := by
  have whole := Script.eq_of_splitString (.string quote) rest
  have size := Text.length_of_drop stands
  have sizes := congrArg List.length whole
  rw [List.length_append] at sizes
  have stop : text.length - (splitString (.string quote) rest).2.length =
      start + (quote :: (splitString (.string quote) rest).1).length := by
    rw [List.length_cons]
    omega
  have place : text.drop start = (quote :: (splitString (.string quote) rest).1) ++ (splitString (.string quote) rest).2 := by
    rw [stands, List.cons_append, whole]
  exact ⟨_, stringEnd_eq stands, by omega, by rw [stop, Text.drop_of_drop place], by rw [stop, Text.slice_of_drop place]⟩

/-- A search for a closing bracket goes on behind a string. -/
theorem place_string {opening closing : Char} (quoting : isScriptQuote opening = false ∧ isScriptQuote closing = false)
    {quote : Char} (quotes : isScriptQuote quote = true) (depth index : Nat) (rest : Text) :
    (close? opening closing .code depth (quote :: rest)).map (fun found => index + found.1.length) =
      (close? opening closing .code depth (splitString (.string quote) rest).2).map fun found =>
        index + 1 + (splitString (.string quote) rest).1.length + found.1.length := by
  have other : quote ≠ opening := by
    rintro rfl
    rw [quoting.1] at quotes
    cases quotes
  have open_ : quote ≠ closing := by
    rintro rfl
    rw [quoting.2] at quotes
    cases quotes
  rw [Script.close?_outside other open_, ScriptState.step, if_pos quotes, Script.close?_splitString (by simp),
    map_prepend_prepend, Option.map_map]
  congr 1
  funext found
  simp only [Function.comp_apply, prepend, Prod.map_fst, List.length_append, List.length_singleton]
  omega

theorem enclosureEnd_from {opening closing : Char} (other : closing ≠ opening)
    (quoting : isScriptQuote opening = false ∧ isScriptQuote closing = false) (text : Text) (depth start : Nat) :
    loop text (enclosureTurn opening closing text) (fun _ _ => none) depth start =
      .ok ((close? opening closing .code depth (text.drop start)).map fun found => start + found.1.length) := by
  refine loop_eq (fun depth index rest => (close? opening closing .code depth rest).map
    fun (found : Text × Text) => index + found.1.length) (fun _ _ => rfl) (fun depth index c rest stands => ?_) depth start
  have next := Text.drop_succ_of_cons stands
  have onward (depth' : Nat) (same : close? opening closing .code depth (c :: rest) =
      (close? opening closing .code depth' rest).map (prepend [c])) :
      ∃ state later, (.ok (.next (depth', index + 1)) : Checked (Turn (Nat × Nat) (Option Nat))) = .ok (.next (state, later)) ∧
        index < later ∧ ((close? opening closing .code state (text.drop later)).map fun found => later + found.1.length) =
          (close? opening closing .code depth (c :: rest)).map fun found => index + found.1.length := by
    refine ⟨depth', index + 1, rfl, Nat.lt_succ_self index, ?_⟩
    rw [same, next]
    exact (place_cons index c _).symm
  rw [enclosureTurn, charAt_of_drop stands, ok_bind]
  by_cases quotes : isScriptQuote c
  · obtain ⟨stop, reads, size, place, -⟩ := stringEnd_spec stands
    rw [if_pos quotes, reads, ok_bind]
    refine .inr ⟨depth, stop, rfl, by omega, ?_⟩
    rw [place, place_string quoting quotes, ← size]
  · have inCode : ScriptState.code.step c = .code := if_neg quotes
    rw [if_neg quotes]
    by_cases opens : c = opening
    · rw [if_pos opens]
      refine .inr (onward (depth + 1) ?_)
      rw [close?, if_neg fun closes => other (closes.2.1.symm.trans opens), if_pos rfl, if_pos opens, inCode]
      rfl
    · rw [if_neg opens]
      by_cases closes : c = closing
      · rw [if_pos closes]
        by_cases outermost : depth = 1
        · rw [if_pos outermost, close?, if_pos ⟨rfl, closes, outermost⟩]
          exact .inl rfl
        · rw [if_neg outermost]
          refine .inr (onward (depth - 1) ?_)
          rw [close?, if_neg fun ends => outermost ends.2.2, if_pos rfl, if_neg opens, if_pos closes, inCode]
          rfl
      · rw [if_neg closes]
        refine .inr (onward depth ?_)
        rw [Script.close?_outside opens closes, inCode]

theorem enclosureEnd_eq {opening closing : Char} (other : closing ≠ opening)
    (quoting : isScriptQuote opening = false ∧ isScriptQuote closing = false) {text rest : Text} {start : Nat}
    (stands : text.drop start = opening :: rest) :
    enclosureEnd opening closing text start =
      .ok ((close? opening closing .code 1 rest).map fun found => start + 1 + found.1.length) := by
  have inCode : ScriptState.code.step opening = .code := if_neg (by rw [quoting.1]; exact Bool.false_ne_true)
  rw [enclosureEnd, enclosureEnd_from other quoting, stands, close?, if_neg fun closes => other closes.2.1.symm, if_pos rfl,
    if_pos rfl, inCode]
  exact congrArg Except.ok (place_cons start opening _)

/-- A value goes on behind a character that does not end it. -/
theorem splitValue_of_stays {depth : Nat} {c : Char} (stays : Script.endsValue .code depth c = false) (rest : Text) :
    (splitValue .code depth (c :: rest)).2 =
      (splitValue (ScriptState.code.step c) (Script.bracketsAfter .code depth c) rest).2 := by
  rw [splitValue, stays]
  rfl

theorem valueEnd_eq (text : Text) (start : Nat) :
    valueEnd text start = .ok (text.length - (splitValue .code 0 (text.drop start)).2.length) := by
  refine loop_eq (fun depth _ rest => text.length - (splitValue .code depth rest).2.length)
    (fun _ _ => by rw [splitValue, List.length_nil, Nat.sub_zero]) (fun depth index c rest stands => ?_) 0 start
  have next := Text.drop_succ_of_cons stands
  have size := Text.length_of_drop stands
  have stopped (ends : Script.endsValue .code depth c = true) :
      index = text.length - (splitValue .code depth (c :: rest)).2.length := by
    rw [splitValue, if_pos ends, List.length_cons]
    omega
  have onward (stays : Script.endsValue .code depth c = false) (inCode : ScriptState.code.step c = .code) :
      ∃ state later, (.ok (.next (Script.bracketsAfter .code depth c, index + 1)) : Checked (Turn (Nat × Nat) Nat)) =
        .ok (.next (state, later)) ∧ index < later ∧
          text.length - (splitValue .code state (text.drop later)).2.length =
            text.length - (splitValue .code depth (c :: rest)).2.length :=
    ⟨_, index + 1, rfl, Nat.lt_succ_self index, by rw [next, splitValue_of_stays stays, inCode]⟩
  rw [valueTurn, charAt_of_drop stands, ok_bind]
  by_cases quotes : isScriptQuote c
  · obtain ⟨stop, reads, sizes, place, -⟩ := stringEnd_spec stands
    have plain : opensBracket c = false ∧ closesBracket c = false ∧ (c == ';' || c == '\n' || c == ',') = false := by
      have quotes := quotes
      simp only [isScriptQuote, Bool.or_eq_true, beq_iff_eq] at quotes
      rcases quotes with (rfl | rfl) | rfl <;> decide
    have stays : Script.endsValue .code depth c = false := by
      rw [Script.endsValue, Bool.or_assoc, Bool.or_assoc, ← Bool.or_assoc (c == ';'), plain.2.1, plain.2.2, Bool.or_false,
        Bool.and_false]
    have brackets : Script.bracketsAfter .code depth c = depth := by
      rw [Script.bracketsAfter, if_pos rfl, plain.1, plain.2.1, if_neg Bool.false_ne_true, if_neg Bool.false_ne_true]
    rw [if_pos quotes, reads, ok_bind]
    refine .inr ⟨depth, stop, rfl, by omega, ?_⟩
    rw [place, splitValue_of_stays stays, brackets, ScriptState.step, if_pos quotes,
      @Script.splitValue_splitString (.string c) (by simp) depth rest]
  · have inCode : ScriptState.code.step c = .code := if_neg quotes
    rw [if_neg quotes]
    by_cases opens : opensBracket c
    · rw [if_pos opens]
      have brackets : Script.bracketsAfter .code depth c = depth + 1 := by
        rw [Script.bracketsAfter, if_pos rfl, if_pos opens]
      rw [← brackets]
      refine .inr (onward ?_ inCode)
      simp only [Script.opensBracket, Bool.or_eq_true, beq_iff_eq] at opens
      rcases opens with (rfl | rfl) | rfl <;> exact Bool.and_false _
    · rw [if_neg opens]
      by_cases closes : closesBracket c
      · rw [if_pos closes]
        by_cases outermost : depth = 0
        · rw [if_pos outermost]
          exact .inl (by rw [← stopped (by simp [Script.endsValue, outermost, closes])])
        · have brackets : Script.bracketsAfter .code depth c = depth - 1 := by
            rw [Script.bracketsAfter, if_pos rfl, if_neg opens, if_pos closes]
          rw [if_neg outermost, ← brackets]
          exact .inr (onward (by simp [Script.endsValue, outermost]) inCode)
      · rw [if_neg closes]
        have brackets : Script.bracketsAfter .code depth c = depth := by
          rw [Script.bracketsAfter, if_pos rfl, if_neg opens, if_neg closes]
        have same : (depth = 0 && (c == ';' || c == '\n' || c == ',')) = Script.endsValue .code depth c := by
          simp [Script.endsValue, closes, Bool.or_assoc]
        rw [same]
        cases ends : Script.endsValue .code depth c with
        | true => exact .inl (by rw [← stopped ends]; rfl)
        | false =>
          have passed := onward ends inCode
          rw [brackets] at passed
          exact .inr passed

theorem bindingEnd_eq {source after : Text} {close : Nat} (stands : source.drop (close + 1) = after) :
    ∃ stop, bindingEnd source close = .ok ((afterBinding after).1, stop) ∧ close < stop ∧
      source.drop stop = (afterBinding after).2 := by
  have past := Text.le_runEnd (fun c => c == ' ' || c == '\t') source (close + 1)
  have place := Text.drop_runEnd (fun c => c == ' ' || c == '\t') source (close + 1)
  rw [stands] at place
  rw [bindingEnd, runEnd_eq, ok_bind, standsAt_eq, ok_bind, place, afterBinding]
  cases follows : after.dropWhile fun c => c == ' ' || c == '\t' with
  | nil => exact ⟨close + 1, rfl, Nat.lt_succ_self close, stands⟩
  | cons c rest =>
    rw [follows] at place
    by_cases ends : c = ';'
    · subst ends
      exact ⟨_, rfl, by omega, Text.drop_succ_of_cons place⟩
    · refine ⟨close + 1, ?_, Nat.lt_succ_self close, ?_⟩
      · rw [List.head?_cons, beq_eq_false_iff_ne.2 fun same => ends (Option.some.inj same), if_neg Bool.false_ne_true]
        split
        · next same => exact absurd (List.cons.inj same).1 ends
        · rfl
      · split
        · next same => exact absurd (List.cons.inj same).1 ends
        · exact stands

theorem lexemeAt_eq {before : Option Char} {source tail rest : Text} {index : Nat} {c : Char} {found : Lexeme}
    (stands : source.drop index = c :: tail) (taken : lexeme before c tail = (found, rest)) :
    ∃ next, lexemeAt before source index = .ok (found, next) ∧ index < next ∧ next + rest.length = source.length ∧
      source.drop next = rest := by
  have behind := Text.drop_succ_of_cons stands
  have size := Text.length_of_drop stands
  rw [lexemeAt, charAt_of_drop stands, ok_bind]
  by_cases quotes : isScriptQuote c
  · obtain ⟨stop, reads, sizes, place, sliced⟩ := stringEnd_spec stands
    have whole := congrArg List.length (Script.eq_of_splitString (.string c) tail)
    rw [List.length_append] at whole
    rw [lexeme, if_pos quotes] at taken
    cases taken
    rw [if_pos quotes, reads, ok_bind, sliced]
    exact ⟨stop, rfl, by omega, by omega, place⟩
  · have bound := Script.length_lexeme_le before c tail
    rw [taken] at bound
    dsimp only at bound
    rw [if_neg quotes, behind, taken]
    exact ⟨_, rfl, by omega, by omega, Text.drop_of_suffix (stands ▸ Script.suffix_of_lexeme taken)⟩

theorem seed?_eq (scope : Scope) (topLevel : Bool) (operator : Option Char) (raw : Text) :
    seed? scope topLevel operator raw = .ok (Script.seed? scope topLevel operator raw) := by
  rw [seed?, Script.seed?]
  cases topLevel && operator.isNone && Text.isIdentifier raw with
  | false => rfl
  | true =>
    rw [Bool.true_and, Bindings.binds_eq_isSome, Bindings.get?, if_pos rfl, lookup]
    cases scope.lookup raw <;> rfl

theorem lowerAt_eq (scope : Scope) (nested : Bool) (source : Text) (before : Option Char) (braces : Int) (index : Nat) :
    lowerAt scope nested source before braces index = embed (lowerFrom scope nested before braces (source.drop index)) := by
  rw [lowerAt]
  split
  · next inside =>
    have stands := List.drop_eq_getElem_cons inside
    generalize source[index] = c at stands
    generalize source.drop (index + 1) = tail at stands
    have size := Text.length_of_drop stands
    rcases taken : lexeme before c tail with ⟨found, rest⟩
    obtain ⟨next, reads, onward, within, place⟩ := lexemeAt_eq stands taken
    have others (last : Option Char) (braces : Int) :
        lowerAt scope nested source last braces next = embed (lowerFrom scope nested last braces rest) := by
      rw [← place]
      exact lowerAt_eq scope nested source last braces next
    rw [Guarded.check_ok reads, pure_bind, stands, Script.lowerFrom_cons taken]
    dsimp only
    rw [dif_pos onward]
    cases found with
    | verbatim text =>
      dsimp only
      rw [others, Guarded.embed_bind_pure]
    | binding selector every event =>
      obtain ⟨front, opens⟩ := Script.exists_of_lexeme_binding taken
      have parenthesis : source.drop (next - 1) = '(' :: rest := by
        have sizes := congrArg List.length opens
        rw [List.length_append, List.length_cons, List.length_cons] at sizes
        rw [show next - 1 = index + front.length by omega]
        exact Text.drop_of_drop (stands.trans opens)
      dsimp only
      rw [Guarded.check_ok (enclosureEnd_eq (by decide) (by decide) parenthesis), pure_bind]
      cases closed : close? '(' ')' .code 1 rest with
      | none =>
        dsimp only [Option.map_none]
        rw [Text.slice, List.drop_take, stands, Nat.add_sub_cancel_left]
      | some parts =>
        obtain ⟨inside, after⟩ := parts
        have whole := Script.eq_of_close? closed
        have shorter := Script.length_of_close? closed
        have close : next - 1 + 1 + inside.length = next + inside.length := by omega
        obtain ⟨stop, ends, later, follows⟩ := @bindingEnd_eq source after (next + inside.length)
          (Text.drop_succ_of_drop (place.trans whole))
        have deeper : inside.length < source.length := by omega
        have behind : index < stop := by omega
        have handled := lowerAt_eq scope true inside none 0 0
        have continued := lowerAt_eq scope nested source (afterBinding after).1 braces stop
        rw [List.drop_zero] at handled
        rw [follows] at continued
        dsimp only [Option.map_some]
        rw [close, Text.slice_of_drop (place.trans whole), dif_pos deeper, handled, Guarded.embed_bind]
        refine bind_congr fun handler => ?_
        rw [Guarded.check_ok ends, pure_bind]
        dsimp only
        rw [dif_pos behind, continued, Guarded.embed_bind_pure]
    | increment name up =>
      dsimp only
      rw [others, Guarded.embed_bind, Guarded.embed_bind_pure]
    | write name operator =>
      have parts := Script.splitValue_append .code 0 rest
      have sizes := Script.length_splitValue .code 0 rest
      have trimmed := Text.length_trim_le (splitValue .code 0 rest).1
      have ended : valueEnd source next = .ok (next + (splitValue .code 0 rest).1.length) := by
        rw [valueEnd_eq, place]
        congr 1
        omega
      have follows := Text.drop_of_drop (place.trans parts.symm)
      have snippet : Text.slice source index (next + (splitValue .code 0 rest).1.length) =
          (c :: tail).take (tail.length + 1 - (splitValue .code 0 rest).2.length) :=
        Text.slice_of_rest stands follows (by omega)
      dsimp only
      rw [Guarded.check_ok ended, pure_bind, Text.slice_of_drop (place.trans parts.symm), snippet]
      by_cases missing : Text.trim (splitValue .code 0 rest).1 = []
      · rw [if_pos missing, if_pos missing]
      · have deeper : (Text.trim (splitValue .code 0 rest).1).length < source.length ∧
            index < next + (splitValue .code 0 rest).1.length := by omega
        have lowered := lowerAt_eq scope true (Text.trim (splitValue .code 0 rest).1) none 0 0
        have continued := lowerAt_eq scope nested source (splitValue .code 0 rest).1.getLast? braces
          (next + (splitValue .code 0 rest).1.length)
        rw [List.drop_zero] at lowered
        rw [follows] at continued
        rw [if_neg missing, if_neg missing, dif_pos deeper, Guarded.embed_bind]
        refine bind_congr fun _ => ?_
        rw [Guarded.check_ok (seed?_eq _ _ _ _), pure_bind]
        cases Script.seed? scope (!nested && braces == 0) operator (Text.trim (splitValue .code 0 rest).1) with
        | some literal =>
          dsimp only
          rw [pure_bind, pure_bind, continued, Guarded.embed_bind]
          exact bind_congr fun written => (Guarded.embed_bind_pure _ _).symm
        | none =>
          dsimp only
          rw [lowered, continued, Guarded.embed_bind]
          refine bind_congr fun value => ?_
          rw [Guarded.embed_bind]
          exact bind_congr fun written => (Guarded.embed_bind_pure _ _).symm
    | read name =>
      dsimp only
      rw [others, Guarded.embed_bind, Guarded.embed_bind_pure]
    | selector selector every =>
      dsimp only
      rw [others, Guarded.embed_bind_pure]
    | other d =>
      dsimp only
      rw [others, Guarded.embed_bind_pure]
  · next outside =>
    rw [List.drop_eq_nil_of_le (Nat.le_of_not_lt outside), lowerFrom, Guarded.embed_pure]
termination_by (source.length, source.length - index)
decreasing_by
  all_goals first
    | exact Prod.Lex.left _ _ deeper
    | exact Prod.Lex.left _ _ deeper.1
    | exact Prod.Lex.right _ (by omega)

theorem lowerHandler_eq (scope : Scope) (body : Text) :
    lowerHandler scope body = embed (Script.lowerHandler scope body) := by
  rw [lowerHandler, Script.lowerHandler, Guarded.embed_bind, lowerAt_eq, List.drop_zero]
  refine bind_congr fun lowered => ?_
  rw [Guarded.embed_ite, Guarded.embed_pure, Guarded.embed_pure]

end Checked

end ComponentPages
