import ComponentPages.Proofs.Script.Generated
import ComponentPages.Proofs.Outcome

/-!
Lowering keeps brackets matched. The scans that cut out the values of writes and the handlers of bindings know strings
but no comments. Where the comments in those parts hold no quote and no bracket, and none is open where a part ends,
the script that is generated has matched brackets like its source.
-/
namespace ComponentPages

namespace Script

/-- The values and handlers that lowering cuts out of a source, those inside of others included. -/
def cutsFrom (before : Option Char) (source : Text) : List Text :=
  match source with
  | [] => []
  | c :: tail =>
    match _taken : lexeme before c tail with
    | (found, rest) =>
      have shorter : rest.length ≤ tail.length := by
        have bound := length_lexeme_le before c tail
        rw [_taken] at bound
        exact bound
      match found with
      | .verbatim text => cutsFrom text.getLast? rest
      | .binding _ _ _ =>
        match _closed : close? '(' ')' .code 1 rest with
        | none => []
        | some (inside, after) =>
          have parts := length_of_close? _closed
          have remainder := length_afterBinding_le after
          inside :: (cutsFrom none inside ++ cutsFrom (afterBinding after).1 (afterBinding after).2)
      | .increment _ up => cutsFrom (some (if up then '+' else '-')) rest
      | .write _ _ =>
        have sizes := length_splitValue .code 0 rest
        have trimmed := Text.length_trim_le (splitValue .code 0 rest).1
        (splitValue .code 0 rest).1 :: (cutsFrom none (Text.trim (splitValue .code 0 rest).1) ++
          cutsFrom (splitValue .code 0 rest).1.getLast? (splitValue .code 0 rest).2)
      | .read name => cutsFrom name.getLast? rest
      | .selector selector every => cutsFrom (if every then some '*' else selector.getLast?) rest
      | .other d => cutsFrom (some d) rest
termination_by source.length
decreasing_by
  all_goals simp only [List.length_cons]
  all_goals omega

/-- The values and handlers that lowering cuts out of a whole source. -/
def cuts (source : Text) : List Text := cutsFrom none source

theorem cutsFrom_cons {before : Option Char} {c : Char} {tail rest : Text} {found : Lexeme}
    (taken : lexeme before c tail = (found, rest)) : cutsFrom before (c :: tail) =
      match found with
      | .verbatim text => cutsFrom text.getLast? rest
      | .binding _ _ _ =>
        match close? '(' ')' .code 1 rest with
        | none => []
        | some (inside, after) =>
          inside :: (cutsFrom none inside ++ cutsFrom (afterBinding after).1 (afterBinding after).2)
      | .increment _ up => cutsFrom (some (if up then '+' else '-')) rest
      | .write _ _ =>
        (splitValue .code 0 rest).1 :: (cutsFrom none (Text.trim (splitValue .code 0 rest).1) ++
          cutsFrom (splitValue .code 0 rest).1.getLast? (splitValue .code 0 rest).2)
      | .read name => cutsFrom name.getLast? rest
      | .selector selector every => cutsFrom (if every then some '*' else selector.getLast?) rest
      | .other d => cutsFrom (some d) rest := by
  rw [cutsFrom]
  split
  next found' rest' taken' =>
  rw [taken] at taken'
  cases taken'
  cases found with
  | binding selector every event =>
    dsimp only
    split
    · next none => rw [none]
    · next inside after closed => rw [closed]
  | _ => rfl

end Script

namespace Lowering

variable {α β : Type}

/-- Whatever was found before, a value that the lowering comes to has a property. -/
def Returns (lowering : Lowering α) (holds : α → Prop) : Prop :=
  ∀ found value, (lowering.run.run found).1 = .ok value → holds value

namespace Returns

theorem pure {value : α} {holds : α → Prop} (here : holds value) : Returns (Pure.pure value) holds := by
  rintro found value' same
  cases same
  exact here

theorem throw (failure : Failure) (holds : α → Prop) : Returns (throw failure : Lowering α) holds := by
  rintro found value same
  cases same

theorem any (lowering : Lowering α) : Returns lowering fun _ => True := fun _ _ _ => trivial

theorem bind {first : Lowering α} {holds : α → Prop} (returns : Returns first holds) {second : α → Lowering β}
    {holds' : β → Prop} (next : ∀ value, holds value → Returns (second value) holds') :
    Returns (first >>= second) holds' := by
  intro found value same
  rw [run_bind] at same
  cases ran : first.run.run found with
  | mk outcome later =>
    rw [ran] at same
    cases outcome with
    | error failure => cases same
    | ok middle => exact next middle (returns found middle (by rw [ran])) later value same

end Returns

end Lowering

namespace Script

section Lexemes

variable {text rest : Text}

theorem eq_of_identifier {name : Text} (named : Pattern.identifier text = some (name, rest)) :
    text = name ++ rest ∧ ∀ c ∈ name, isIdentifierPart c = true := by
  obtain ⟨whole, identifier⟩ := Pattern.eq_of_identifier named
  exact ⟨whole, (isIdentifierPart_of_isIdentifier identifier).2⟩

theorem eq_of_signal {name : Text} (found : signal text = some (name, rest)) :
    text = '$' :: name ++ rest ∧ ∀ c ∈ name, isIdentifierPart c = true := by
  simp only [signal, bind, Option.bind_eq_some_iff] at found
  obtain ⟨afterMark, marked, named⟩ := found
  obtain ⟨rfl, parts⟩ := eq_of_identifier named
  have dollar : ("$" : Text) = ['$'] := rfl
  rw [dollar] at marked
  have whole := Text.eq_of_after? marked
  exact ⟨whole, parts⟩

/-- The characters of a selector. -/
def isSelectorPart (c : Char) : Bool := c == '#' || c == '.' || isSlugPart c

theorem isSlugPart_of_isIdentifierStart {c : Char} (start : isIdentifierStart c = true) : isSlugPart c = true := by
  simp only [isIdentifierStart, isSlugPart, isWord, Char.isAlphanum, Bool.or_eq_true] at start ⊢
  rcases start with letter | underscore
  · exact .inl (.inl (.inl (.inl letter)))
  · exact .inl (.inl (.inr underscore))

theorem eq_of_selector {chosen : Text} (found : selector text = some (chosen, rest)) :
    (∃ c tail, chosen = c :: tail ∧ c ∈ ("$#." : Text)) ∧ text = chosen ++ rest ∧
      ∀ c ∈ chosen, isSelectorPart c = true := by
  unfold selector at found
  split at found
  · next mark c tail =>
    split at found
    · next begins =>
      simp only [Bool.and_eq_true, Bool.or_eq_true, beq_iff_eq] at begins
      cases found
      have marks : mark ∈ ("$#." : Text) := by rcases begins.1 with rfl | rfl <;> decide
      refine ⟨⟨mark, _, rfl, marks⟩, by simp, fun d member => ?_⟩
      rcases List.mem_cons.1 member with rfl | later
      · rcases begins.1 with rfl | rfl <;> rfl
      rcases List.mem_cons.1 later with rfl | later
      · simp [isSelectorPart, isSlugPart_of_isIdentifierStart begins.2]
      · have part : isSlugPart d = true := List.mem_takeWhile_imp later
        simp [isSelectorPart, part]
    · cases found
  · cases found

theorem eq_of_star (text : Text) : (text = '*' :: (star text).2 ∧ (star text).1 = true) ∨
    (text = (star text).2 ∧ (star text).1 = false) := by
  unfold star
  split
  · exact .inl ⟨rfl, rfl⟩
  · exact .inr ⟨rfl, rfl⟩

theorem keeps_star (text : Text) : ∃ taken, text = taken ++ (star text).2 ∧ Keeps taken := by
  rcases eq_of_star text with ⟨whole, -⟩ | ⟨whole, -⟩
  · exact ⟨['*'], whole, keeps_of_flat (by decide)⟩
  · exact ⟨[], whole, keeps_of_flat (by decide)⟩

theorem keeps_space (text : Text) : ∃ taken, text = taken ++ Text.trimLeft text ∧ Keeps taken := by
  obtain ⟨space, blank, whole⟩ := Text.exists_eq_trimLeft text
  exact ⟨space, whole, keeps_of_flat fun c member => isFlatCode_of_isBlank (blank c member)⟩

theorem isQuotable_of_class {c : Char} {class_ : Char → Bool} (member : class_ c = true)
    (others : class_ '\'' = false ∧ class_ '\\' = false) : isQuotable c = true := by
  simp only [isQuotable, Bool.and_eq_true, bne_iff_ne, ne_eq]
  constructor
  · rintro rfl
    rw [others.1] at member
    cases member
  · rintro rfl
    rw [others.2] at member
    cases member

theorem quotable_of_identifier {name : Text} (parts : ∀ c ∈ name, isIdentifierPart c = true) :
    ∀ c ∈ name, isQuotable c = true := fun c member => isQuotable_of_class (parts c member) (by decide)

theorem keeps_of_identifier {name : Text} (parts : ∀ c ∈ name, isIdentifierPart c = true) : Keeps ('$' :: name) := by
  refine keeps_of_flat fun c member => ?_
  rcases List.mem_cons.1 member with rfl | later
  · decide
  · exact isFlatCode_of_class (parts c later) (by decide)

theorem quotable_of_selector {chosen : Text} (parts : ∀ c ∈ chosen, isSelectorPart c = true) :
    ∀ c ∈ chosen, isQuotable c = true := fun c member => isQuotable_of_class (parts c member) (by decide +kernel)

theorem keeps_of_selector {chosen : Text} (parts : ∀ c ∈ chosen, isSelectorPart c = true) : Keeps chosen :=
  keeps_of_flat fun c member => isFlatCode_of_class (parts c member) (by decide +kernel)

/-- A lexeme of the dialect whose names can be quoted and whose operator is known. -/
def IsDialect : Lexeme → Prop
  | .binding selector _ event => (∀ c ∈ selector, isQuotable c = true) ∧ Signal.IsEvent event
  | .increment name _ | .read name => ∀ c ∈ name, isQuotable c = true
  | .write name operator => (∀ c ∈ name, isQuotable c = true) ∧ ∀ sign, operator = some sign → sign ∈ ("-+*/%" : Text)
  | .selector selector _ => ∀ c ∈ selector, isQuotable c = true
  | .verbatim _ | .other _ => False

/-- The bracket that a lexeme opens. -/
def opening : Lexeme → Text
  | .binding _ _ _ => ['(']
  | _ => []

/-- A pattern that reads lexemes of the dialect and leaves a reader in code. -/
def ReadsDialect (read : Pattern Lexeme) : Prop :=
  ∀ text found rest, read text = some (found, rest) → IsDialect found ∧ ∃ c taken, text = c :: taken ++ rest ∧
    c ∈ ("$#." : Text) ∧ ∀ opened, Reader.read? ⟨.code, opened⟩ (c :: taken) = some ⟨.code, opening found ++ opened⟩

theorem readsDialect_read : ReadsDialect read := by
  intro text found rest here
  obtain ⟨⟨name, after⟩, named, same⟩ := Option.map_eq_some_iff.1 here
  cases same
  obtain ⟨rfl, parts⟩ := eq_of_signal named
  exact ⟨quotable_of_identifier parts, '$', name, rfl, by decide, keeps_of_identifier parts⟩

theorem readsDialect_increment : ReadsDialect increment := by
  intro text found rest here
  simp only [increment, bind, Option.bind_eq_some_iff, Prod.exists] at here
  obtain ⟨name, afterName, named, stepped⟩ := here
  obtain ⟨rfl, parts⟩ := eq_of_signal named
  obtain ⟨space, whole, blank⟩ := keeps_space afterName
  have taken (signs : Text) (flat : Keeps signs) (trimmed : Text.trimLeft afterName = signs ++ rest) :
      ∃ c taken, '$' :: name ++ afterName = c :: taken ++ rest ∧ c ∈ ("$#." : Text) ∧
        ∀ opened, Reader.read? ⟨.code, opened⟩ (c :: taken) = some ⟨.code, opened⟩ := by
    refine ⟨'$', name ++ space ++ signs, ?_, by decide, ?_⟩
    · rw [whole, trimmed]
      simp
    · exact ((keeps_of_identifier parts).append blank).append flat
  split at stepped
  · next trimmed =>
    cases stepped
    exact ⟨quotable_of_identifier parts, taken ['+', '+'] (keeps_of_flat (by decide)) trimmed⟩
  · next trimmed =>
    cases stepped
    exact ⟨quotable_of_identifier parts, taken ['-', '-'] (keeps_of_flat (by decide)) trimmed⟩
  · cases stepped

theorem eq_of_assignment {text rest : Text} {operator : Option Char} (found : assignment text = some (operator, rest)) :
    (∀ sign, operator = some sign → sign ∈ ("-+*/%" : Text)) ∧ text = operator.toList ++ '=' :: rest := by
  unfold assignment at found
  split at found
  · split at found
    · cases found
    · cases found
      exact ⟨by simp, rfl⟩
  · next sign rest' _ =>
    split at found
    · next known =>
      cases found
      simp only [Bool.and_eq_true] at known
      refine ⟨fun other same => ?_, rfl⟩
      obtain rfl := Option.some.inj same
      exact List.mem_of_elem_eq_true known.1
    · cases found
  · cases found

theorem keeps_sign {operator : Option Char} (known : ∀ sign, operator = some sign → sign ∈ ("-+*/%" : Text)) :
    Keeps (operator.toList ++ ['=']) := by
  cases operator with
  | none => exact keeps_of_flat (by decide)
  | some sign =>
    have listed := known sign rfl
    fin_cases listed <;> exact fun _ => rfl

theorem readsDialect_write : ReadsDialect write := by
  intro text found rest here
  simp only [write, bind, Option.bind_eq_some_iff, Prod.exists, Option.some.injEq, Prod.mk.injEq] at here
  obtain ⟨name, afterName, named, operator, remainder, assigned, rfl, rfl⟩ := here
  obtain ⟨rfl, parts⟩ := eq_of_signal named
  obtain ⟨space, whole, blank⟩ := keeps_space afterName
  obtain ⟨known, trimmed⟩ := eq_of_assignment assigned
  refine ⟨⟨quotable_of_identifier parts, known⟩, '$', name ++ space ++ (operator.toList ++ ['=']), ?_, by decide, ?_⟩
  · rw [whole, trimmed]
    simp
  · exact ((keeps_of_identifier parts).append blank).append (keeps_sign known)

theorem readsDialect_query : ReadsDialect query := by
  intro text found rest here
  simp only [query, bind, Option.bind_eq_some_iff, Prod.exists] at here
  obtain ⟨chosen, afterSelector, selected, here⟩ := here
  obtain ⟨⟨c, tail, rfl, mark⟩, rfl, parts⟩ := eq_of_selector selected
  split at here
  · cases here
    obtain ⟨stars, whole, kept⟩ := keeps_star afterSelector
    refine ⟨quotable_of_selector parts, c, tail ++ stars, ?_, mark, (keeps_of_selector parts).append kept⟩
    rw [List.cons_append, List.cons_append, List.append_assoc, ← whole]
  · split at here
    · cases here
      exact ⟨quotable_of_selector parts, c, tail, rfl, mark, keeps_of_selector parts⟩
    · cases here

theorem readsDialect_binding : ReadsDialect binding := by
  intro text found rest here
  simp only [binding, bind, Option.bind_eq_some_iff, Prod.exists, Option.some.injEq, Prod.mk.injEq] at here
  obtain ⟨chosen, afterSelector, selected, afterDot, dot, event, afterEvent, listened, remainder, opened_, rfl, rfl⟩ :=
    here
  obtain ⟨⟨c, tail, rfl, mark⟩, rfl, parts⟩ := eq_of_selector selected
  obtain ⟨stars, whole, kept⟩ := keeps_star afterSelector
  obtain ⟨named, rfl, -⟩ := Signal.event_eq_some_iff.1 listened
  obtain ⟨space, spaced, blank⟩ := keeps_space afterEvent
  have point : ("." : Text) = ['.'] := rfl
  have parenthesis : ("(" : Text) = ['('] := rfl
  rw [point] at dot
  rw [parenthesis] at opened_
  have dotted := Text.eq_of_after? dot
  have begun := Text.eq_of_after? opened_
  have letters : Keeps event := keeps_of_flat fun d member => isFlatCode_of_class (named.isAlpha d member) (by decide)
  have front : Keeps (c :: tail ++ stars ++ ['.'] ++ event ++ space) :=
    ((((keeps_of_selector parts).append kept).append (keeps_of_flat (by decide))).append letters).append blank
  refine ⟨⟨quotable_of_selector parts, named⟩, c, tail ++ stars ++ ['.'] ++ event ++ space ++ ['('], ?_, mark,
    fun opened => ?_⟩
  · rw [whole, dotted, spaced, begun]
    simp
  · change Reader.read? ⟨.code, opened⟩ (c :: tail ++ stars ++ ['.'] ++ event ++ space ++ ['(']) = _
    rw [Reader.read?_append_of_some (front opened)]
    rfl

/-- Where a reader of strings is, given what the model's reader says. -/
def placeOf : ScriptState → Place
  | .code => .code
  | .string quote => .string quote
  | .escaped quote => .escaped quote

theorem step_placeOf {state : ScriptState} (inside : state ≠ .code) (c : Char) :
    (placeOf state).step c = placeOf (state.step c) := by
  cases state with
  | code => exact absurd rfl inside
  | string quote =>
    simp only [placeOf, Place.step, ScriptState.step]
    split
    · rfl
    · split <;> rfl
  | escaped quote => rfl

theorem isCode_placeOf {state : ScriptState} (inside : state ≠ .code) : (placeOf state).isCode = false := by
  cases state with
  | code => exact absurd rfl inside
  | string quote | escaped quote => rfl

/-- A string is read to its end, where the reader is in code, or to the end of the text. -/
theorem read?_splitString {state : ScriptState} (inside : state ≠ .code) (text : Text) :
    text = (splitString state text).1 ++ (splitString state text).2 ∧ ∃ place : Place,
      (∀ opened, Reader.read? ⟨placeOf state, opened⟩ (splitString state text).1 = some ⟨place, opened⟩) ∧
      (place = .code ∨ (splitString state text).2 = []) := by
  induction text generalizing state with
  | nil => exact ⟨rfl, placeOf state, fun _ => rfl, .inr rfl⟩
  | cons c text ih =>
    have stepped (opened : Text) : Reader.step? ⟨placeOf state, opened⟩ c = some ⟨placeOf (state.step c), opened⟩ := by
      rw [Reader.step?_inside (isCode_placeOf inside), step_placeOf inside]
    rw [splitString]
    split
    · next same =>
      refine ⟨rfl, .code, fun opened => ?_, .inl rfl⟩
      rw [Reader.read?, stepped, same]
      rfl
    · next other =>
      obtain ⟨whole, place, read, ends⟩ := ih other
      refine ⟨congrArg (c :: ·) whole, place, fun opened => ?_, ends⟩
      rw [Reader.read?, stepped, Option.bind_some, read]

/-- A line comment is read up to the line break, in the comment. -/
theorem read?_takeWhile (text : Text) (opened : Text) :
    Reader.read? ⟨.line, opened⟩ (text.takeWhile (· != '\n')) = some ⟨.line, opened⟩ := by
  induction text with
  | nil => rfl
  | cons c text ih =>
    rw [List.takeWhile_cons]
    split
    · next inside =>
      have other : c ≠ '\n' := by simpa using inside
      rw [Reader.read?, Reader.step?_inside rfl, Place.step, if_neg other, Option.bind_some, ih]
    · rfl

theorem exists_splitComment_cons (c : Char) (text : Text) : ∃ inside, (splitComment (c :: text)).1 = c :: inside := by
  rw [splitComment.eq_def]
  split
  · next none => cases none
  · next same =>
    cases same
    exact ⟨_, rfl⟩
  · next same =>
    cases same
    exact ⟨_, rfl⟩

/-- A block comment is read to its end, where the reader is in code, or to the end of the text. -/
theorem read?_splitComment (text : Text) :
    text = (splitComment text).1 ++ (splitComment text).2 ∧ ∃ place : Place,
      (∀ opened, Reader.read? ⟨.block, opened⟩ (splitComment text).1 = some ⟨place, opened⟩) ∧
      (place = .code ∨ (splitComment text).2 = []) := by
  fun_induction splitComment text with
  | case1 => exact ⟨rfl, .block, fun _ => rfl, .inr rfl⟩
  | case2 rest => exact ⟨rfl, .code, fun _ => rfl, .inl rfl⟩
  | case3 c rest other inside after found ih =>
    rw [found] at ih
    obtain ⟨whole, place, read, ends⟩ := ih
    refine ⟨congrArg (c :: ·) whole, ?_⟩
    by_cases star : c = '*'
    · -- A star is no end here, so that what follows is read as if there had been none.
      subst star
      cases rest with
      | nil =>
        cases found
        exact ⟨.star, fun _ => rfl, .inr rfl⟩
      | cons d rest =>
        obtain ⟨later, first⟩ := exists_splitComment_cons d rest
        rw [found] at first
        dsimp only at first
        subst first
        have slash : d ≠ '/' := by
          rintro rfl
          exact other rest rfl rfl
        refine ⟨place, fun opened => ?_, ends⟩
        have same : Place.star.step d = Place.block.step d := by simp only [Place.step, if_neg slash]
        have restarted := read opened
        rw [Reader.read?, Reader.step?_inside rfl, ← same] at restarted
        rw [Reader.read?, Reader.step?_inside rfl, Option.bind_some, Reader.read?, Reader.step?_inside rfl]
        exact restarted
    · refine ⟨place, fun opened => ?_, ends⟩
      rw [Reader.read?, Reader.step?_inside rfl, Place.step, if_neg star, Option.bind_some, read]

theorem eq_of_startsWith {beginning text : Text} (starts : Text.startsWith beginning text = true) :
    ∃ rest, text = beginning ++ rest := by
  obtain ⟨rest, found⟩ := Option.isSome_iff_exists.1 starts
  exact ⟨rest, Text.eq_of_after? found⟩

/-- Every lexeme is a string or a comment, or it is of the dialect, or it is one character that begins neither. -/
theorem lexeme_cases {before : Option Char} {c : Char} {tail rest : Text} {found : Lexeme}
    (taken : lexeme before c tail = (found, rest)) :
    (∃ inside place, found = .verbatim (c :: inside) ∧ tail = inside ++ rest ∧ isBlank c = false ∧
      (∀ opened, Reader.read? ⟨.code, opened⟩ (c :: inside) = some ⟨place, opened⟩) ∧
      (place = .code ∨ (place = .line ∧ rest.head?.all (· == '\n') = true) ∨ rest = [])) ∨
    (IsDialect found ∧ c ∈ ("$#." : Text) ∧ ∃ inside, tail = inside ++ rest ∧
      ∀ opened, Reader.read? ⟨.code, opened⟩ (c :: inside) = some ⟨.code, opening found ++ opened⟩) ∨
    (found = .other c ∧ rest = tail ∧ isScriptQuote c = false ∧
      (c = '/' → tail.head? ≠ some '/' ∧ tail.head? ≠ some '*')) := by
  unfold lexeme at taken
  dsimp only at taken
  split at taken
  · next quotes =>
    cases taken
    obtain ⟨whole, place, read, ends⟩ := read?_splitString (by simp : ScriptState.string c ≠ .code) tail
    refine .inl ⟨_, place, rfl, whole, ?_, fun opened => ?_, ends.imp_right .inr⟩
    · simp only [isScriptQuote, Bool.or_eq_true, beq_iff_eq] at quotes
      rcases quotes with (rfl | rfl) | rfl <;> rfl
    · rw [Reader.read?, Reader.step?_quote quotes, Option.bind_some]
      exact read opened
  split at taken
  · next line =>
    cases taken
    have slashes : ("//" : Text) = ['/', '/'] := rfl
    rw [slashes] at line
    obtain ⟨text, same⟩ := eq_of_startsWith line
    obtain ⟨rfl, rfl⟩ : c = '/' ∧ tail = '/' :: text := List.cons.inj same
    have whole : '/' :: text = (splitBefore '\n' ('/' :: text)).1 ++ (splitBefore '\n' ('/' :: text)).2 := by
      rw [splitBefore, List.takeWhile_append_dropWhile]
    refine .inl ⟨_, .line, rfl, whole, rfl, fun opened => ?_, .inr (.inl ⟨rfl, ?_⟩)⟩
    · exact read?_takeWhile text opened
    · change ((('/' :: text).dropWhile (· != '\n')).head?.all (· == '\n')) = true
      have stopped := all_head?_dropWhile (· != '\n') ('/' :: text)
      simpa only [bne, Bool.not_not] using stopped
  split at taken
  · next block =>
    cases taken
    have marks : ("/*" : Text) = ['/', '*'] := rfl
    rw [marks] at block
    obtain ⟨text, same⟩ := eq_of_startsWith block
    obtain ⟨rfl, rfl⟩ : c = '/' ∧ tail = '*' :: text := List.cons.inj same
    obtain ⟨whole, place, read, ends⟩ := read?_splitComment text
    refine .inl ⟨'*' :: (splitComment text).1, place, rfl, congrArg ('*' :: ·) whole, rfl, fun opened => ?_, ends.imp_right .inr⟩
    exact read opened
  · next unquoted line block =>
    split at taken
    · next found' dialect =>
      cases taken
      have reads {allowed : Bool} {pattern : Pattern Lexeme} (dialect : ReadsDialect pattern)
          (here : guarded allowed pattern (c :: tail) = some (found, rest)) :
          IsDialect found ∧ c ∈ ("$#." : Text) ∧ ∃ inside, tail = inside ++ rest ∧
            ∀ opened, Reader.read? ⟨.code, opened⟩ (c :: inside) = some ⟨.code, opening found ++ opened⟩ := by
        unfold guarded at here
        split at here
        · obtain ⟨known, d, inside, whole, mark, read⟩ := dialect _ _ _ here
          obtain ⟨rfl, rfl⟩ := List.cons.inj whole
          exact ⟨known, mark, inside, rfl, read⟩
        · cases here
      refine .inr (.inl ?_)
      rcases Option.or_eq_some_iff.1 dialect with bound | ⟨-, dialect⟩
      · exact reads readsDialect_binding bound
      rcases Option.or_eq_some_iff.1 dialect with stepped | ⟨-, dialect⟩
      · exact reads readsDialect_increment stepped
      rcases Option.or_eq_some_iff.1 dialect with written | ⟨-, dialect⟩
      · exact reads readsDialect_write written
      rcases Option.or_eq_some_iff.1 dialect with got | ⟨-, dialect⟩
      · exact reads readsDialect_read got
      · exact reads readsDialect_query dialect
    · cases taken
      refine .inr (.inr ⟨rfl, rfl, Bool.eq_false_of_not_eq_true unquoted, ?_⟩)
      rintro rfl
      cases tail with
      | nil => exact ⟨by simp, by simp⟩
      | cons d tail =>
        constructor
        · intro same
          obtain rfl := Option.some.inj same
          exact line rfl
        · intro same
          obtain rfl := Option.some.inj same
          exact block rfl

/-- A lexeme is verbatim or a single character, or one of the dialect's patterns reads it. -/
theorem exists_pattern_of_lexeme {before : Option Char} {c : Char} {tail rest : Text} {found : Lexeme}
    (taken : lexeme before c tail = (found, rest)) :
    (∃ text, found = .verbatim text) ∨ found = .other c ∨
      ∃ pattern ∈ [binding, increment, write, read, query], pattern (c :: tail) = some (found, rest) := by
  have allowed {ready : Bool} {pattern : Pattern Lexeme} (here : guarded ready pattern (c :: tail) = some (found, rest)) :
      pattern (c :: tail) = some (found, rest) := by
    unfold guarded at here
    split at here
    · exact here
    · cases here
  unfold lexeme at taken
  dsimp only at taken
  split at taken
  · cases taken
    exact .inl ⟨_, rfl⟩
  split at taken
  · cases taken
    exact .inl ⟨_, rfl⟩
  split at taken
  · cases taken
    exact .inl ⟨_, rfl⟩
  split at taken
  · next dialect =>
    cases taken
    refine .inr (.inr ?_)
    rcases Option.or_eq_some_iff.1 dialect with bound | ⟨-, dialect⟩
    · exact ⟨binding, by simp, allowed bound⟩
    rcases Option.or_eq_some_iff.1 dialect with stepped | ⟨-, dialect⟩
    · exact ⟨increment, by simp, allowed stepped⟩
    rcases Option.or_eq_some_iff.1 dialect with written | ⟨-, dialect⟩
    · exact ⟨write, by simp, allowed written⟩
    rcases Option.or_eq_some_iff.1 dialect with got | ⟨-, dialect⟩
    · exact ⟨read, by simp, allowed got⟩
    · exact ⟨query, by simp, allowed dialect⟩
  · cases taken
    exact .inr (.inl rfl)

end Lexemes

/-- The text begins with a character that a reader in code takes for the same wherever in code it is. -/
def StartsSolid (text : Text) : Prop := ∃ c rest, text = c :: rest ∧ isBlank c = false ∧ c ≠ '/' ∧ c ≠ '*'

theorem StartsSolid.append {text : Text} (starts : StartsSolid text) (rest : Text) : StartsSolid (text ++ rest) := by
  obtain ⟨c, tail, rfl, solid⟩ := starts
  exact ⟨c, tail ++ rest, rfl, solid⟩

theorem startsSolid_call (function name : Text) (argument? : Option Text) : StartsSolid (call function name argument?) := by
  have front : StartsSolid ("gtml." : Text) := ⟨'g', "tml.", rfl, by decide⟩
  exact ((((front.append _).append _).append _).append _).append _ |>.append _

theorem startsSolid_queryCall (selector : Text) (every : Bool) : StartsSolid (queryCall selector every) := by
  have front : StartsSolid ("document.querySelector" : Text) := ⟨'d', "ocument.querySelector", rfl, by decide⟩
  exact (((front.append _).append _).append _).append _

theorem startsSolid_bindingCall (selector : Text) (every : Bool) (event handler : Text) :
    StartsSolid (bindingCall selector every event handler) := by
  cases every with
  | false =>
    rw [bindingCall_false]
    exact (startsSolid_queryCall selector false).append _
  | true =>
    rw [bindingCall_true]
    exact (startsSolid_queryCall selector true).append _

/-- Where the readers of a source and of its script are, before the rest of the source. They are in code together, or
at the end of a line comment, or at the end of the source. -/
inductive Aligned : Place → Place → Text → Prop
  | code {place place' : Place} {source : Text} (inSource : place.isCode = true) (inScript : place'.isCode = true)
    (settles : place.isSettled = true → place'.isSettled = true)
    (slash : place = .slash ∨ place' = .slash → source.head? ≠ some '/' ∧ source.head? ≠ some '*') :
    Aligned place place' source
  | line {source : Text} (ends : source.head?.all (· == '\n') = true) : Aligned .line .line source
  | done {place : Place} : Aligned place place []

namespace Aligned

variable {place place' : Place} {source script : Text}

theorem start (source : Text) : Aligned .code .code source := .code rfl rfl id fun slash => by simp at slash

/-- Before a solid character both readers are in code, where the source goes on as from its start. -/
theorem read?_source {c : Char} {tail : Text} (aligned : Aligned place place' (c :: tail)) (solid : isBlank c = false)
    (opened : Text) :
    Reader.read? ⟨place, opened⟩ (c :: tail) = Reader.read? ⟨.code, opened⟩ (c :: tail) := by
  cases aligned with
  | code inSource inScript settles slash =>
    have stepped : Reader.step? ⟨place, opened⟩ c = Reader.step? ⟨.code, opened⟩ c := by
      refine Reader.step?_of_isCode inSource (fun same => ?_) fun _ => solid
      obtain ⟨line, block⟩ := slash (.inl same)
      exact ⟨fun slash => line (congrArg some slash), fun star => block (congrArg some star)⟩
    rw [Reader.read?, Reader.read?, stepped]
  | line ends =>
    rw [List.head?_cons, Option.all_some, beq_iff_eq] at ends
    rw [ends] at solid
    cases solid

/-- There a script goes on as from its start too, if it begins with the same character or with no comment mark. -/
theorem read?_script {c d : Char} {tail script : Text} (aligned : Aligned place place' (c :: tail))
    (solid : isBlank c = false) (black : isBlank d = false) (slash : d = c ∨ (d ≠ '/' ∧ d ≠ '*')) (opened : Text) :
    Reader.read? ⟨place', opened⟩ (d :: script) = Reader.read? ⟨.code, opened⟩ (d :: script) := by
  cases aligned with
  | code inSource inScript settles marks =>
    have stepped : Reader.step? ⟨place', opened⟩ d = Reader.step? ⟨.code, opened⟩ d := by
      refine Reader.step?_of_isCode inScript (fun same => ?_) fun _ => black
      rcases slash with rfl | other
      · obtain ⟨line, block⟩ := marks (.inr same)
        exact ⟨fun slash => line (congrArg some slash), fun star => block (congrArg some star)⟩
      · exact other
    rw [Reader.read?, Reader.read?, stepped]
  | line ends =>
    rw [List.head?_cons, Option.all_some, beq_iff_eq] at ends
    rw [ends] at solid
    cases solid

end Aligned

/-- A reader closes all brackets in the text, and it is outside of strings and comments at the end, if it has to be. -/
def Closes (place : Place) (opened : Text) (settled : Bool) (text : Text) : Prop :=
  ∃ last : Place, Reader.read? ⟨place, opened⟩ text = some ⟨last, []⟩ ∧ (settled = true → last.isSettled = true)

section Steps

variable {place place' : Place} {opened : Text} {settled : Bool} {c : Char} {tail : Text}

theorem Closes.isSealed {text : Text} (closes : Closes .code [] true text) : IsSealed text := by
  obtain ⟨last, read, settles⟩ := closes
  exact ⟨last, settles rfl, read⟩

/-- Generated script in place of a solid lexeme leaves the rest to be read from code. -/
theorem returns_generated (aligned : Aligned place place' (c :: tail)) (solid : isBlank c = false) {piece : Text}
    (kept : Keeps piece) (starts : StartsSolid piece) {later : Lowering Text}
    (returns : later.Returns (Closes .code opened settled)) :
    (do pure (piece ++ (← later)) : Lowering Text).Returns (Closes place' opened settled) := by
  refine returns.bind fun script closes => .pure ?_
  obtain ⟨last, read, settles⟩ := closes
  obtain ⟨d, rest, rfl, black, slash⟩ := starts
  refine ⟨last, ?_, settles⟩
  rw [List.cons_append, aligned.read?_script solid black (.inr slash), ← List.cons_append,
    Reader.read?_append_of_some (kept opened), read]

/-- Behind a lexeme of the dialect the source is read from code, with the bracket that the lexeme opens. -/
theorem Aligned.read?_dialect (aligned : Aligned place place' (c :: tail)) {before : Option Char} {found : Lexeme}
    {rest : Text} (taken : lexeme before c tail = (found, rest)) (verbatim : ∀ text, found ≠ .verbatim text)
    (other : ∀ d, found ≠ .other d) {final : Reader} (read : Reader.read? ⟨place, opened⟩ (c :: tail) = some final) :
    IsDialect found ∧ isBlank c = false ∧ Reader.read? ⟨.code, opening found ++ opened⟩ rest = some final := by
  rcases lexeme_cases taken with ⟨_, _, same, -⟩ | ⟨known, mark, inside, rfl, reads⟩ | ⟨same, -⟩
  · exact absurd same (verbatim _)
  · have solid : isBlank c = false := (by decide : ∀ d ∈ ("$#." : Text), isBlank d = false) c mark
    rw [aligned.read?_source solid, ← List.cons_append, Reader.read?_append_of_some (reads opened)] at read
    exact ⟨known, solid, read⟩
  · exact absurd same (other _)

theorem exists_afterBinding (text : Text) : ∃ taken, text = taken ++ (afterBinding text).2 ∧ Keeps taken := by
  have blank : ∀ c ∈ text.takeWhile (fun c => c == ' ' || c == '\t'), isFlatCode c = true := by
    intro c member
    have space := List.mem_takeWhile_imp member
    simp only [Bool.or_eq_true, beq_iff_eq] at space
    rcases space with rfl | rfl <;> decide
  unfold afterBinding
  split
  · next rest start =>
    refine ⟨text.takeWhile (fun c => c == ' ' || c == '\t') ++ [';'], ?_, ?_⟩
    · have whole := text.takeWhile_append_dropWhile (p := fun c => c == ' ' || c == '\t')
      rw [start] at whole
      simpa using whole.symm
    · exact (keeps_of_flat blank).append (keeps_of_flat (by decide))
  · exact ⟨[], rfl, fun _ => rfl⟩

theorem splitValue_head (state : ScriptState) (depth : Nat) (text : Text) :
    (splitValue state depth text).2.head? ≠ some '/' ∧ (splitValue state depth text).2.head? ≠ some '*' := by
  induction text generalizing state depth with
  | nil => exact ⟨by simp [splitValue], by simp [splitValue]⟩
  | cons c text ih =>
    rw [splitValue]
    split
    · next ends =>
      have foreign {d : Char} (goesOn : (closesBracket d || d == ';' || d == '\n' || d == ',') = false) :
          (c :: text).head? ≠ some d := by
        intro same
        obtain rfl := Option.some.inj same
        simp [endsValue, goesOn] at ends
      exact ⟨foreign (by decide), foreign (by decide)⟩
    · exact ih (state.step c) (bracketsAfter state depth c)

theorem flat_lower {event : Text} (named : Signal.IsEvent event) : ∀ c ∈ Text.lower event, isFlatCode c = true := by
  have parts : ∀ c ∈ event, isTagNamePart c = true := by
    intro c member
    simp [isTagNamePart, Char.isAlphanum, named.isAlpha c member]
  rw [Text.lower_of_isTagNamePart parts]
  intro c member
  obtain ⟨d, present, rfl⟩ := List.mem_map.1 member
  exact isFlatCode_of_class (isTagNamePart_toLower (parts d present)) (by decide)

theorem seeded_of_seed? {scope : Scope} {topLevel : Bool} {operator : Option Char} {raw literal : Text}
    (seeded : seed? scope topLevel operator raw = some literal) : (scope.lookup raw).map seed = some literal := by
  unfold seed? at seeded
  split at seeded
  · exact seeded
  · cases seeded

theorem step_of_isCode (inCode : place.isCode = true) (unquoted : isScriptQuote c = false) (slash : c ≠ '/')
    (star : place = .slash → c ≠ '*') : place.step c = if place = .margin ∧ isBlank c = true then .margin else .code := by
  have entered : Place.enter c = .code := by rw [Place.enter, unquoted, if_neg Bool.false_ne_true, if_neg slash]
  cases place with
  | code => exact entered
  | slash => simp only [Place.step, if_neg slash, if_neg (star rfl), entered, reduceCtorEq, false_and, if_false]
  | margin => simp only [Place.step, entered, true_and]
  | _ => cases inCode

/-- A character that begins no lexeme is read in step: it opens a comment in neither text. -/
theorem Aligned.step_other (aligned : Aligned place place' (c :: tail)) (unquoted : isScriptQuote c = false)
    (slash : c = '/' → tail.head? ≠ some '/' ∧ tail.head? ≠ some '*') {next : Place} {below : Text}
    (stepped : Reader.step? ⟨place, opened⟩ c = some ⟨next, below⟩) :
    ∃ next', Reader.step? ⟨place', opened⟩ c = some ⟨next', below⟩ ∧ Aligned next next' tail := by
  cases aligned with
  | code inSource inScript settles marks =>
    rw [Reader.step?_code inSource] at stepped
    obtain ⟨later, counted, same⟩ := Option.map_eq_some_iff.1 stepped
    cases same
    refine ⟨place'.step c, by rw [Reader.step?_code inScript, counted]; rfl, ?_⟩
    have unmarked (marked : place = .slash ∨ place' = .slash) : c ≠ '/' ∧ c ≠ '*' :=
      ⟨fun same => (marks marked).1 (congrArg some same), fun same => (marks marked).2 (congrArg some same)⟩
    by_cases slashed : c = '/'
    · have enters {other : Place} (inCode : other.isCode = true) (free : other ≠ .slash) : other.step c = .slash := by
        subst slashed
        cases other with
        | code | margin => rfl
        | slash => exact absurd rfl free
        | _ => cases inCode
      rw [enters inSource fun same => (unmarked (.inl same)).1 slashed,
        enters inScript fun same => (unmarked (.inr same)).1 slashed]
      exact .code rfl rfl id fun _ => slash slashed
    · rw [step_of_isCode inSource unquoted slashed fun same => (unmarked (.inl same)).2,
        step_of_isCode inScript unquoted slashed fun same => (unmarked (.inr same)).2]
      by_cases margin : place = .margin ∧ isBlank c = true
      · rw [if_pos margin]
        refine .code rfl ?_ (fun same => by cases same) fun slash => ?_
        · split <;> rfl
        · split at slash <;> simp at slash
      · -- The script is in a margin only if the source is in one too.
        have settled : place.isSettled = true ∨ isBlank c = false := by
          cases place with
          | code | slash => exact .inl rfl
          | margin => exact .inr (Bool.eq_false_of_not_eq_true fun blank => margin ⟨rfl, blank⟩)
          | _ => cases inSource
        have outside : ¬(place' = .margin ∧ isBlank c = true) := by
          rintro ⟨rfl, blank⟩
          rcases settled with settled | black
          · exact absurd (settles settled) (by decide)
          · rw [blank] at black
            cases black
        rw [if_neg margin, if_neg outside]
        exact .start tail
  | line ends =>
    rw [List.head?_cons, Option.all_some, beq_iff_eq] at ends
    subst ends
    rw [Reader.step?_inside rfl] at stepped ⊢
    cases stepped
    exact ⟨.margin, rfl, .code rfl rfl id fun slash => by rcases slash with other | other <;> cases other⟩

theorem returns_writeSignal {name value : Text} (topLevel : Bool) (named : ∀ c ∈ name, isQuotable c = true)
    (closed : IsSealed value) :
    (writeSignal topLevel name value).Returns fun written => Keeps written ∧ StartsSolid written := by
  have written (function : Text) (flat : ∀ c ∈ function, isFlatCode c = true) :
      Keeps (call function name (some value)) ∧ StartsSolid (call function name (some value)) := by
    refine ⟨keeps_call flat named fun argument same => ?_, startsSolid_call function name (some value)⟩
    rw [← Option.some.inj same]
    exact closed
  unfold writeSignal
  split
  · exact (Lowering.Returns.any _).bind fun _ _ => .pure (written _ (by decide))
  · exact .pure (written _ (by decide))

end Steps

theorem returns_lowerFrom (scope : Scope) (nested : Bool) {before : Option Char} (braces : Int) {source : Text}
    (tame : ∀ part ∈ cutsFrom before source, isTame part = true) {place place' : Place}
    (aligned : Aligned place place' source) {opened : Text} {final : Reader}
    (read : Reader.read? ⟨place, opened⟩ source = some final) (closed : final.opened = []) :
    (lowerFrom scope nested before braces source).Returns (Closes place' opened final.place.isSettled) := by
  fun_induction lowerFrom scope nested before braces source generalizing place place' opened final with
  | case1 =>
    cases read
    obtain rfl : opened = [] := closed
    refine .pure ⟨place', rfl, fun settled => ?_⟩
    cases aligned with
    | code _ _ settles => exact settles settled
    | line => exact settled
    | done => exact settled
  | case2 nested before braces c tail rest text taken _ shorter ih =>
    rw [cutsFrom_cons taken] at tame
    rcases lexeme_cases taken with ⟨inside, next, same, rfl, solid, reads, ends⟩ | ⟨known, -⟩ | ⟨other, -⟩
    · cases same
      rw [aligned.read?_source solid, ← List.cons_append, Reader.read?_append_of_some (reads opened)] at read
      have later : Aligned next next rest := by
        rcases ends with rfl | ⟨rfl, line⟩ | rfl
        · exact .start rest
        · exact .line line
        · exact .done
      refine (ih tame later read closed).bind fun script closes => .pure ?_
      obtain ⟨last, behind, settles⟩ := closes
      refine ⟨last, ?_, settles⟩
      rw [List.cons_append, aligned.read?_script solid solid (.inl rfl), ← List.cons_append,
        Reader.read?_append_of_some (reads opened), behind]
    · cases known
    · cases other
  | case3 => exact .throw _ _
  | case4 nested before braces c tail rest selector every event taken inside after ends parts remainder _ shorter
      handler others =>
    obtain ⟨known, solid, read⟩ := aligned.read?_dialect taken (by simp) (by simp) read
    rw [cutsFrom_cons taken] at tame
    dsimp only at tame
    rw [ends] at tame
    have tameInside := tame inside List.mem_cons_self
    have opens : Reader.read? ⟨.code, [] ++ '(' :: opened⟩ rest = some final := read
    obtain ⟨last, settled, readInside, readAfter⟩ := read?_close? opens ends tameInside
    obtain ⟨skipped, whole, kept⟩ := exists_afterBinding after
    rw [whole] at readAfter
    have readLater := (Reader.read?_append_of_some (kept opened) _).symm.trans readAfter
    have inner := handler (fun part member => tame part (List.mem_cons_of_mem inside (List.mem_append_left _ member)))
      (.start inside) readInside rfl
    have outer := others (fun part member => tame part (List.mem_cons_of_mem inside (List.mem_append_right _ member)))
      (.start _) readLater closed
    refine inner.bind fun script closes => ?_
    rw [settled] at closes
    have bound := keeps_bindingCall known.1 (flat_lower known.2) closes.isSealed.trim every
    exact returns_generated aligned solid bound (startsSolid_bindingCall _ _ _ _) outer
  | case5 nested before braces c tail rest name up taken _ shorter ih =>
    obtain ⟨known, solid, read⟩ := aligned.read?_dialect taken (by simp) (by simp) read
    rw [cutsFrom_cons taken] at tame
    refine (Lowering.Returns.any _).bind fun _ _ => ?_
    exact returns_generated aligned solid (keeps_incrementCall known up) (startsSolid_call _ _ _)
      (ih tame (.start rest) read closed)
  | case6 => exact .throw _ _
  | case7 nested before braces c tail rest name operator taken sizes trimmed parts raw topLevel valued _ shorter =>
    rename_i others value
    obtain ⟨known, solid, read⟩ := aligned.read?_dialect taken (by simp) (by simp) read
    rw [cutsFrom_cons taken] at tame
    have tameValue := tame parts.1 List.mem_cons_self
    have begins : Reader.read? ⟨.code, [] ++ opened⟩ rest = some final := read
    obtain ⟨last, settled, readValue, readAfter⟩ := read?_splitValue begins closed tameValue
    have trimmed : IsSealed raw := IsSealed.trim ⟨last, settled, readValue⟩
    obtain ⟨first, settledFirst, readRaw⟩ := trimmed
    have later : Aligned last .code parts.2 :=
      .code (Place.isCode_of_isSettled settled) rfl (fun _ => rfl) fun _ => splitValue_head _ _ _
    have outer := others (fun part member => tame part (List.mem_cons_of_mem _ (List.mem_append_right _ member)))
      later readAfter closed
    have inner := value (fun part member => tame part (List.mem_cons_of_mem _ (List.mem_append_left _ member)))
      (.start raw) readRaw rfl
    refine (Lowering.Returns.any _).bind fun _ _ => ?_
    have written (script : Text) (ended : IsSealed script) : (do
        let written ← writeSignal topLevel name (operated name operator script)
        pure (written ++ (← lowerFrom scope nested parts.1.getLast? braces parts.2)) : Lowering Text).Returns
          (Closes place' opened final.place.isSettled) := by
      refine (returns_writeSignal topLevel known.1 (isSealed_operated known.1 known.2 ended)).bind fun piece good => ?_
      exact returns_generated aligned solid good.1 good.2 outer
    dsimp only
    split
    · next literal seeded =>
      refine (Lowering.Returns.pure ?_).bind written
      obtain ⟨seed, -, rfl⟩ := Option.map_eq_some_iff.1 (seeded_of_seed? seeded)
      exact isSealed_seed seed
    · refine inner.bind fun script closes => written script ?_
      rw [settledFirst] at closes
      exact closes.isSealed
  | case8 nested before braces c tail rest name taken _ shorter ih =>
    obtain ⟨known, solid, read⟩ := aligned.read?_dialect taken (by simp) (by simp) read
    rw [cutsFrom_cons taken] at tame
    refine (Lowering.Returns.any _).bind fun _ _ => ?_
    exact returns_generated aligned solid (keeps_getCall known) (startsSolid_call _ _ _)
      (ih tame (.start rest) read closed)
  | case9 nested before braces c tail rest selector every taken last _ shorter ih =>
    obtain ⟨known, solid, read⟩ := aligned.read?_dialect taken (by simp) (by simp) read
    rw [cutsFrom_cons taken] at tame
    exact returns_generated aligned solid (keeps_queryCall known every) (startsSolid_queryCall _ _)
      (ih tame (.start rest) read closed)
  | case10 nested before braces c tail rest d taken outer _ shorter ih =>
    rw [cutsFrom_cons taken] at tame
    rcases lexeme_cases taken with ⟨_, _, other, -⟩ | ⟨known, -⟩ | ⟨same, rfl, unquoted, slash⟩
    · cases other
    · cases known
    · cases same
      rw [Reader.read?, Option.bind_eq_some_iff] at read
      obtain ⟨⟨next, below⟩, stepped, read⟩ := read
      obtain ⟨next', here, later⟩ := aligned.step_other unquoted slash stepped
      refine (ih tame later read closed).bind fun script closes => .pure ?_
      obtain ⟨last, behind, settles⟩ := closes
      refine ⟨last, ?_, settles⟩
      rw [Reader.read?, here, Option.bind_some, behind]

/-- Lowering a source with matched brackets gives script with matched brackets, if no comment in a value or a handler
holds a quote or a bracket, or is open where the value or the handler ends. Comments elsewhere hold what they like. -/
theorem isMatched_lower {source : Text} (matched : IsMatched source) (tame : ∀ part ∈ cuts source, isTame part = true)
    (scope : Scope) (nested : Bool) (found : Declarations) {script : Text}
    (lowers : ((lower scope nested source).run.run found).1 = .ok script) : IsMatched script := by
  obtain ⟨place, read⟩ := matched
  obtain ⟨last, closes, -⟩ := returns_lowerFrom scope nested 0 tame (.start source) read rfl found script lowers
  exact ⟨last, closes⟩

/-- Comments outside of values and handlers, and a line comment inside of a handler. -/
theorem isMatched_lower_comments :
    let source : Text := "// it's (\n#b.onclick(() => \x7b $n++; // up\n \x7d); $n = [1, 'x)'] /* list */; $n"
    IsMatched source ∧ (∀ part ∈ cuts source, isTame part = true) ∧
      ∃ script, ((lower [] false source).run.run {}).1 = .ok script ∧ IsMatched script := by
  intro source
  let script : Text := "// it's (\ndocument.querySelector('#b').onclick = " ++
    "() => \x7b gtml.set('n', gtml.get('n') + 1); // up\n \x7d; gtml.signal('n', [1, 'x)'] /* list */); gtml.get('n')"
  have matched : IsMatched source := by decide +kernel
  have tame : ∀ part ∈ cuts source, isTame part = true := by decide +kernel
  have lowers : ((lower [] false source).run.run {}).1.toOption = some script := by decide +kernel
  exact ⟨matched, tame, _, eq_ok_of_toOption lowers, isMatched_lower matched tame [] false {} (eq_ok_of_toOption lowers)⟩

end Script

end ComponentPages
