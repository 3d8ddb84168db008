import ComponentPages.Proofs.Script.Assignment
import ComponentPages.Proofs.Script.Matching

/-!
Line comments behind values. The scan that ends a value passes over the comment, so that the comment becomes a part of
the call that is generated and takes the parenthesis that is to close it.
-/
namespace ComponentPages

namespace Script

/-- The characters of a line comment that the scan of a value passes over: it takes a quote in a comment for one in code,
and a bracket, a semicolon and a comma too. -/
def isPassed (c : Char) : Bool :=
  !isScriptQuote c && !opensBracket c && !closesBracket c && c != ';' && c != '\n' && c != ','

section Commented

variable {name value comment rest : Text}

theorem splitValue_of_isPassed {text : Text} (passed : ∀ c ∈ text, isPassed c = true)
    (line : rest.head?.all (· == '\n') = true) : splitValue .code 0 (text ++ rest) = (text, rest) := by
  induction text with
  | nil =>
    cases rest with
    | nil => rfl
    | cons c rest =>
      rw [List.head?_cons, Option.all_some, beq_iff_eq] at line
      subst line
      rfl
  | cons c text ih =>
    have here := passed c List.mem_cons_self
    simp only [isPassed, Bool.and_eq_true, Bool.not_eq_true', bne_iff_ne, ne_eq] at here
    obtain ⟨⟨⟨⟨⟨unquoted, opens⟩, closes⟩, semicolon⟩, break_⟩, comma⟩ := here
    have goesOn : endsValue .code 0 c = false := by simp [endsValue, closes, semicolon, break_, comma]
    have flat : bracketsAfter .code 0 c = 0 := by simp [bracketsAfter, opens, closes]
    have code : ScriptState.code.step c = .code := by rw [ScriptState.step, unquoted, if_neg Bool.false_ne_true]
    rw [List.cons_append, splitValue, goesOn, code, flat, ih fun d member => passed d (List.mem_cons_of_mem c member)]
    rfl

theorem isPassed_of_isInert {c : Char} (inert : isInert c = true) (line : c ≠ '\n') : isPassed c = true := by
  simp [isPassed, isScriptQuote_of_isInert inert, opensBracket_of_isInert inert, closesBracket_of_isInert inert, line,
    ne_of_isInert inert (d := ';') (by decide), ne_of_isInert inert (d := ',') (by decide)]

/-- What stands before the comment marks is trimmed at its front only, what stands behind them at its end only. -/
theorem trim_commented (value comment : Text) :
    Text.trim (value ++ '/' :: '/' :: comment) = Text.trimLeft value ++ '/' :: '/' :: Text.trimRight comment := by
  have front : Text.trimLeft (value ++ '/' :: '/' :: comment) = Text.trimLeft value ++ '/' :: '/' :: comment := by
    by_cases empty : Text.trimLeft value = []
    · obtain ⟨space, blank, whole⟩ := Text.exists_eq_trimLeft value
      rw [empty, List.append_nil] at whole
      rw [empty, whole, Text.trimLeft_append_cons blank (by decide)]
      rfl
    · exact Text.trimLeft_append empty _
  rw [Text.trim, front]
  generalize Text.trimLeft value = text
  have marked : text ++ '/' :: '/' :: comment = (text ++ ['/', '/']) ++ comment := by simp
  have marked' : text ++ '/' :: '/' :: Text.trimRight comment = (text ++ ['/', '/']) ++ Text.trimRight comment := by simp
  rw [marked, marked']
  by_cases empty : Text.trimRight comment = []
  · have blank : IsSpace comment := by
      intro c member
      have all := List.dropWhile_eq_nil_iff.1 (List.reverse_eq_nil_iff.1 empty)
      exact all c (List.mem_reverse.2 member)
    have ended := Text.trimRight_concat_of_not_blank (c := '/') (by decide) (text ++ ['/'])
    rw [empty, List.append_nil, Text.trimRight_append_of_space _ blank]
    simpa using ended
  · exact Text.trimRight_append _ empty

/-- Inert text and a line comment are lowered to themselves. -/
theorem lowerFrom_commented (inert : ∀ c ∈ value, isInert c = true) (line : '\n' ∉ comment) (scope : Scope)
    (nested : Bool) (before : Option Char) (braces : Int) :
    lowerFrom scope nested before braces (value ++ '/' :: '/' :: comment) = pure (value ++ '/' :: '/' :: comment) := by
  have inLine : ∀ c ∈ '/' :: comment, (c != '\n') = true := by
    intro c member
    rw [bne_iff_ne]
    rintro rfl
    rcases List.mem_cons.1 member with slash | later
    · cases slash
    · exact line later
  have taken (before : Option Char) : lexeme before '/' ('/' :: comment) = (.verbatim ('/' :: '/' :: comment), []) := by
    have starts : Text.startsWith "//" ('/' :: '/' :: comment) = true := rfl
    rw [lexeme, if_neg (by decide), starts, if_pos rfl, splitBefore, List.takeWhile_eq_self_iff.2 inLine,
      List.dropWhile_eq_nil_iff.2 inLine]
  have verbatim (before : Option Char) :
      lowerFrom scope nested before braces ('/' :: '/' :: comment) = pure ('/' :: '/' :: comment) := by
    rw [lowerFrom]
    split
    next found rest' taken' =>
    rw [taken] at taken'
    cases taken'
    simp [lowerFrom]
  rw [lowerFrom_of_isInert inert, verbatim, map_pure]

theorem isFlatCode_of_isInert {c : Char} (inert : isInert c = true) : isFlatCode c = true := by
  simp [isFlatCode, isScriptQuote_of_isInert inert, opensBracket_of_isInert inert, closesBracket_of_isInert inert,
    ne_of_isInert inert (d := '/') (by decide)]

theorem read?_line {text : Text} (free : '\n' ∉ text) (opened : Text) :
    Reader.read? ⟨.line, opened⟩ text = some ⟨.line, opened⟩ := by
  have whole : text.takeWhile (· != '\n') = text := List.takeWhile_eq_self_iff.2 fun c member => by
    rw [bne_iff_ne]
    rintro rfl
    exact free member
  rw [← whole, read?_takeWhile]

/-- The comment takes the parenthesis that is to close the call. -/
theorem read?_commentedCall {function : Text} (flat : ∀ c ∈ function, isFlatCode c = true)
    (named : ∀ c ∈ name, isQuotable c = true) (inert : ∀ c ∈ value, isInert c = true) (line : '\n' ∉ comment) :
    Reader.read? ⟨.code, []⟩ (call function name (some (value ++ '/' :: '/' :: comment))) = some ⟨.line, ['(']⟩ := by
  have module : Keeps ("gtml." : Text) := keeps_of_flat (by decide)
  have comma : Keeps (", " : Text) := keeps_of_flat (by decide)
  have valued : Keeps value := keeps_of_flat fun c member => isFlatCode_of_isInert (inert c member)
  have whole : call function name (some (value ++ '/' :: '/' :: comment)) = ("gtml." ++ function) ++
      '(' :: (((('\'' :: name ++ ['\'']) ++ ", ") ++ value) ++ '/' :: '/' :: (comment ++ [')'])) := by
    rw [call_some]
    generalize ("gtml." : Text) = module
    generalize (", " : Text) = comma
    simp
  have front := ((keeps_quoted named).append comma).append valued
  have closing : '\n' ∉ comment ++ [')'] := by simp [line]
  rw [whole, Reader.read?_append_of_some (module.append (keeps_of_flat flat) [])]
  calc Reader.read? ⟨.code, []⟩ ('(' :: (((('\'' :: name ++ ['\'']) ++ ", ") ++ value) ++ '/' :: '/' :: (comment ++ [')'])))
      = Reader.read? ⟨.code, ['(']⟩ (((('\'' :: name ++ ['\'']) ++ ", ") ++ value) ++ '/' :: '/' :: (comment ++ [')'])) := rfl
    _ = Reader.read? ⟨.code, ['(']⟩ ('/' :: '/' :: (comment ++ [')'])) := Reader.read?_append_of_some (front ['(']) _
    _ = Reader.read? ⟨.line, ['(']⟩ (comment ++ [')']) := rfl
    _ = some ⟨.line, ['(']⟩ := read?_line closing _

theorem cutsFrom_line (line : rest.head?.all (· == '\n') = true) (before : Option Char) :
    cutsFrom before rest = cuts rest := by
  cases rest with
  | nil => rw [cuts, cutsFrom, cutsFrom]
  | cons c rest =>
    rw [List.head?_cons, Option.all_some, beq_iff_eq] at line
    subst line
    have taken (before : Option Char) := lexeme_of_plain (c := '\n') (by decide) (by decide) before rest
    rw [cuts, cutsFrom_cons (taken before), cutsFrom_cons (taken none)]

/-- A line comment behind a written value swallows the parenthesis that closes the call. Whatever matched source
follows on the next line, the script has an open parenthesis. -/
theorem not_isMatched_lower {space : Text} (identifier : Text.isIdentifier name = true) (blank : IsSpace space)
    (inert : ∀ c ∈ value, isInert c = true ∧ c ≠ '\n') (single : value.head? ≠ some '=')
    (passed : ∀ c ∈ comment, isPassed c = true) (line : rest.head?.all (· == '\n') = true)
    (matched : IsMatched ('$' :: (name ++ (space ++ '=' :: (value ++ '/' :: '/' :: comment ++ rest)))))
    (tame : ∀ part ∈ cuts rest, isTame part = true) (scope : Scope) (nested : Bool) :
    (lower scope nested ('$' :: (name ++ (space ++ '=' :: (value ++ '/' :: '/' :: comment ++ rest))))).Returns
      fun script => ¬IsMatched script := by
  have taken (before : Option Char) (allowed : allowsSignal before = true) :
      lexeme before '$' (name ++ (space ++ '=' :: (value ++ '/' :: '/' :: comment ++ rest))) =
        (.write name none, value ++ '/' :: '/' :: comment ++ rest) := by
    refine lexeme_write allowed identifier blank ?_
    cases value with
    | nil => exact nofun
    | cons c value => exact single
  have parts : splitValue .code 0 (value ++ '/' :: '/' :: comment ++ rest) = (value ++ '/' :: '/' :: comment, rest) := by
    refine splitValue_of_isPassed (fun c member => ?_) line
    rcases List.mem_append.1 member with inValue | later
    · exact isPassed_of_isInert (inert c inValue).1 (inert c inValue).2
    rcases List.mem_cons.1 later with rfl | later
    · decide
    rcases List.mem_cons.1 later with rfl | later
    · decide
    · exact passed c later
  have commentLine : '\n' ∉ comment := fun member => absurd (passed '\n' member) (by decide)
  have trimmedLine : '\n' ∉ Text.trimRight comment := fun member => commentLine (Text.mem_of_mem_trimRight member)
  have trimmedInert : ∀ c ∈ Text.trimLeft value, isInert c = true := fun c member =>
    (inert c ((List.dropWhile_suffix isBlank).subset member)).1
  have trimmed := trim_commented value comment
  have valued : Text.trimLeft value ++ '/' :: '/' :: Text.trimRight comment ≠ [] := by simp
  have unseeded (topLevel : Bool) :
      seed? scope topLevel none (Text.trimLeft value ++ '/' :: '/' :: Text.trimRight comment) = none := by
    have foreign : Text.isIdentifier (Text.trimLeft value ++ '/' :: '/' :: Text.trimRight comment) = false := by
      by_contra name
      have part := (isIdentifierPart_of_isIdentifier (Bool.not_eq_false _ ▸ name)).2 '/' (by simp)
      cases part
    rw [seed?, foreign, Bool.and_false, if_neg Bool.false_ne_true]
  have inside := lowerFrom_commented trimmedInert trimmedLine scope true none 0
  -- The source is read up to the comment, where its brackets are closed.
  have readRest : ∃ place : Place, Reader.read? ⟨.line, []⟩ rest = some ⟨place, []⟩ := by
    obtain ⟨place, read⟩ := matched
    have named := keeps_of_identifier (isIdentifierPart_of_isIdentifier identifier).2
    have spaced : Keeps space := keeps_of_flat fun c member => isFlatCode_of_isBlank (blank c member)
    have written : Keeps ('=' :: value) := keeps_of_flat fun c member => by
      rcases List.mem_cons.1 member with rfl | later
      · decide
      · exact isFlatCode_of_isInert (inert c later).1
    have whole : '$' :: (name ++ (space ++ '=' :: (value ++ '/' :: '/' :: comment ++ rest))) =
        ('$' :: name ++ space ++ '=' :: value) ++ '/' :: '/' :: (comment ++ rest) := by simp
    have marks : Reader.read? ⟨.code, []⟩ ('/' :: '/' :: (comment ++ rest)) = Reader.read? ⟨.line, []⟩ (comment ++ rest) := rfl
    rw [whole, Reader.read?_append_of_some (((named.append spaced).append written) []), marks,
      Reader.read?_append_of_some (read?_line commentLine [])] at read
    exact ⟨place, read⟩
  obtain ⟨place, readRest⟩ := readRest
  have written (topLevel : Bool) : (writeSignal topLevel name
      (Text.trimLeft value ++ '/' :: '/' :: Text.trimRight comment)).Returns fun text =>
        Reader.read? ⟨.code, []⟩ text = some ⟨.line, ['(']⟩ := by
    have called (function : Text) (flat : ∀ c ∈ function, isFlatCode c = true) :=
      read?_commentedCall flat (quotable_of_identifier (isIdentifierPart_of_isIdentifier identifier).2) trimmedInert
        trimmedLine
    unfold writeSignal
    split
    · exact (Lowering.Returns.any _).bind fun _ _ => .pure (called _ (by decide))
    · exact .pure (called _ (by decide))
  rw [lower, lowerFrom]
  split
  next found rest' taken' =>
  rw [taken none rfl] at taken'
  cases taken'
  dsimp only
  rw [parts, trimmed, if_neg valued]
  refine (Lowering.Returns.any _).bind fun _ _ => ?_
  rw [unseeded, inside]
  dsimp only
  rw [pure_bind]
  refine (written _).bind fun text readText => ?_
  rw [← cutsFrom_line line (value ++ '/' :: '/' :: comment).getLast?] at tame
  refine (returns_lowerFrom scope nested 0 tame (.line line) readRest rfl).bind fun script closes => .pure ?_
  obtain ⟨last, read, -⟩ := closes
  have wholeRead : Reader.read? ⟨.code, []⟩ (text ++ script) = some ⟨last, ['(']⟩ := by
    rw [Reader.read?_append_of_some readText]
    exact Reader.read?_outer read ['(']
  rintro ⟨other, closed⟩
  rw [wholeRead] at closed
  cases closed

end Commented

/-- The script ends in the comment, with the parenthesis of the call open. -/
example : IsMatched "$a = 1 // c" ∧
    ((lower [] false "$a = 1 // c").run.run {}).1.toOption = some ("gtml.signal('a', 1 // c)" : Text) ∧
    ¬IsMatched "gtml.signal('a', 1 // c)" := by decide +kernel

end Script

end ComponentPages
