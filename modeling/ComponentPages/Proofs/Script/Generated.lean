import ComponentPages.Proofs.Markup.Quiet
import ComponentPages.Proofs.Script.Brackets

/-!
The script that lowering generates. Around sealed values and handlers its brackets match, and it leaves a reader in
code with the brackets that were open before.
-/
namespace ComponentPages

namespace Text

theorem digitChar_ne (n : Nat) : Nat.digitChar n ≠ '"' ∧ Nat.digitChar n ≠ '\\' := by
  by_cases small : n < 16
  · interval_cases n <;> decide
  · have large : Nat.digitChar n = '*' := by
      unfold Nat.digitChar
      iterate 16 rw [if_neg (by omega)]
    rw [large]
    decide

theorem mem_toDigitsCore {base fuel n : Nat} {digits : List Char} {c : Char}
    (member : c ∈ Nat.toDigitsCore base fuel n digits) : (∃ m, c = Nat.digitChar m) ∨ c ∈ digits := by
  induction fuel generalizing n digits with
  | zero => exact .inr member
  | succ fuel ih =>
    rw [Nat.toDigitsCore] at member
    split at member
    · rcases List.mem_cons.1 member with rfl | later
      · exact .inl ⟨_, rfl⟩
      · exact .inr later
    · rcases ih member with digit | listed
      · exact .inl digit
      · rcases List.mem_cons.1 listed with rfl | later
        · exact .inl ⟨_, rfl⟩
        · exact .inr later

theorem ne_of_mem_hex {width n : Nat} {c : Char} (member : c ∈ hex width n) : c ≠ '"' ∧ c ≠ '\\' := by
  rcases List.mem_append.1 member with padding | digit
  · rw [List.eq_of_mem_replicate padding]
    decide
  · rcases mem_toDigitsCore digit with ⟨m, rfl⟩ | none
    · exact digitChar_ne m
    · cases none

end Text

namespace Script

theorem Unquoted.append {quote : Char} {first second : Text} (here : Unquoted quote first)
    (later : Unquoted quote second) : Unquoted quote (first ++ second) := by
  induction here with
  | done => exact later
  | plain other solid _ ih => exact .plain other solid ih
  | escaped _ ih => exact .escaped ih

theorem Unquoted.of_solid {quote : Char} {text : Text} (solid : ∀ c ∈ text, c ≠ quote ∧ c ≠ '\\') :
    Unquoted quote text := by
  induction text with
  | nil => exact .done
  | cons c text ih =>
    obtain ⟨other, plain⟩ := solid c List.mem_cons_self
    exact .plain other plain (ih fun d member => solid d (List.mem_cons_of_mem c member))

theorem Unquoted.flatMap {α : Type} {quote : Char} {write : α → Text} {items : List α}
    (each : ∀ item ∈ items, Unquoted quote (write item)) : Unquoted quote (items.flatMap write) := by
  induction items with
  | nil => exact .done
  | cons item items ih =>
    rw [List.flatMap_cons]
    exact (each item List.mem_cons_self).append (ih fun other member => each other (List.mem_cons_of_mem item member))

theorem unquoted_jsonChar (c : Char) : Unquoted '"' (Text.jsonChar c) := by
  unfold Text.jsonChar
  split
  · exact .escaped .done
  split
  · exact .escaped .done
  iterate 5
    split
    · exact .escaped .done
  split
  · next unquoted unslashed _ _ _ _ _ _ =>
    refine .plain ?_ ?_ .done
    · simpa using unquoted
    · simpa using unslashed
  · exact .flatMap fun unit _ => .escaped (.of_solid fun d member => Text.ne_of_mem_hex member)

/-- The text leaves a reader in code with the brackets it had. -/
def Keeps (text : Text) : Prop := ∀ opened, Reader.read? ⟨.code, opened⟩ text = some ⟨.code, opened⟩

section Keeping

variable {first second inside : Text} {c : Char}

theorem Keeps.append (here : Keeps first) (later : Keeps second) : Keeps (first ++ second) := by
  intro opened
  rw [Reader.read?_append_of_some (here opened), later]

theorem keeps_of_flat (flat : ∀ d ∈ inside, isFlatCode d = true) : Keeps inside := Reader.read?_flat flat

theorem keeps_string {quote : Char} (quotes : isScriptQuote quote = true) (unquoted : Unquoted quote inside) :
    Keeps (quote :: inside ++ [quote]) := Reader.read?_string quotes unquoted

theorem Keeps.isSealed (keeps : Keeps inside) : IsSealed inside := ⟨.code, rfl, keeps []⟩

theorem Keeps.append_sealed (here : Keeps first) (later : IsSealed second) : IsSealed (first ++ second) := by
  obtain ⟨place, settled, read⟩ := later
  exact ⟨place, settled, by rw [Reader.read?_append_of_some (here []), read]⟩

/-- Behind a sealed text a reader goes on in code, unless a slash at its end becomes a comment mark. -/
theorem IsSealed.append_keeps (here : IsSealed first) (slash : c ≠ '/' ∧ c ≠ '*') (later : Keeps (c :: second)) :
    Keeps (first ++ c :: second) := by
  obtain ⟨place, settled, read⟩ := here.read?
  intro opened
  rw [Reader.read?_append_of_some (read opened), Reader.read?_of_isSettled settled slash, later]

theorem keeps_parenthesized (closed : IsSealed inside) : Keeps ('(' :: inside ++ [')']) := by
  obtain ⟨place, settled, read⟩ := closed.read?
  intro opened
  have opens : Reader.step? ⟨.code, opened⟩ '(' = some ⟨.code, '(' :: opened⟩ := rfl
  rw [List.cons_append, Reader.read?, opens, Option.bind_some, Reader.read?_append_of_some (read _),
    Reader.read?_of_isSettled settled (by decide)]
  rfl

theorem keeps_braced (closed : IsSealed inside) : Keeps ('\x7b' :: inside ++ ['\x7d']) := by
  obtain ⟨place, settled, read⟩ := closed.read?
  intro opened
  have opens : Reader.step? ⟨.code, opened⟩ '\x7b' = some ⟨.code, '\x7b' :: opened⟩ := rfl
  rw [List.cons_append, Reader.read?, opens, Option.bind_some, Reader.read?_append_of_some (read _),
    Reader.read?_of_isSettled settled (by decide)]
  rfl

theorem isReachable_of_read? {place last : Place} {opened opened' text : Text}
    (read : Reader.read? ⟨place, opened⟩ text = some ⟨last, opened'⟩) (reachable : place.isReachable = true) :
    last.isReachable = true := by
  induction text generalizing place opened with
  | nil =>
    cases read
    exact reachable
  | cons c text ih =>
    rw [Reader.read?, Option.bind_eq_some_iff] at read
    obtain ⟨next, stepped, later⟩ := read
    obtain ⟨below, -, rfl⟩ := Option.map_eq_some_iff.1 stepped
    exact ih later (Place.isReachable_step reachable c)

/-- White space at the end of a sealed text comes behind a text that is sealed already. -/
theorem isSettled_of_read?_space {place last : Place} {opened opened' space : Text} (blank : IsSpace space)
    (read : Reader.read? ⟨place, opened⟩ space = some ⟨last, opened'⟩) (settled : last.isSettled = true)
    (reachable : place.isReachable = true) : place.isSettled = true ∧ opened' = opened := by
  induction space generalizing place opened with
  | nil =>
    cases read
    exact ⟨settled, rfl⟩
  | cons c space ih =>
    have white := blank c List.mem_cons_self
    have flat := isFlatCode_of_isBlank white
    have star : c ≠ '*' := by
      rintro rfl
      cases white
    rw [Reader.read?, Option.bind_eq_some_iff] at read
    obtain ⟨⟨next, below⟩, stepped, later⟩ := read
    have still : below = opened ∧ next = place.step c := by
      cases inCode : place.isCode with
      | true =>
        rw [Reader.step?_code inCode, bracket?_of_flat flat] at stepped
        cases stepped
        exact ⟨rfl, rfl⟩
      | false =>
        rw [Reader.step?_inside inCode] at stepped
        cases stepped
        exact ⟨rfl, rfl⟩
    obtain ⟨rfl, rfl⟩ := still
    obtain ⟨settledNext, same⟩ := ih (fun d member => blank d (List.mem_cons_of_mem c member)) later
      (Place.isReachable_step reachable c)
    refine ⟨?_, same⟩
    obtain ⟨unquoted, -, -, slash⟩ := flat_of_isFlatCode flat
    cases place with
    | code => rfl
    | slash => rfl
    | margin =>
      rw [Place.step, if_pos white] at settledNext
      cases settledNext
    | string quote =>
      rw [Place.step] at settledNext
      split at settledNext
      · cases settledNext
      · split at settledNext
        · next ends =>
          rw [ends, Bool.eq_false_iff] at unquoted
          exact absurd reachable unquoted
        · cases settledNext
    | escaped quote => cases settledNext
    | line =>
      rw [Place.step] at settledNext
      split at settledNext <;> cases settledNext
    | block =>
      rw [Place.step, if_neg star] at settledNext
      cases settledNext
    | star =>
      rw [Place.step, if_neg slash, if_neg star] at settledNext
      cases settledNext

theorem IsSealed.trim (closed : IsSealed inside) : IsSealed (Text.trim inside) := by
  obtain ⟨before, after, blankBefore, blankAfter, whole⟩ := Text.exists_eq_trim inside
  obtain ⟨last, settled, read⟩ := closed
  have skipped : Keeps before := keeps_of_flat fun d member => isFlatCode_of_isBlank (blankBefore d member)
  rw [whole, List.append_assoc, Reader.read?_append_of_some (skipped []), Reader.read?_append,
    Option.bind_eq_some_iff] at read
  obtain ⟨⟨place, opened⟩, middle, read⟩ := read
  obtain ⟨here, rfl⟩ := isSettled_of_read?_space blankAfter read settled (isReachable_of_read? middle rfl)
  exact ⟨place, here, middle⟩

end Keeping

/-! ### Values and calls -/

theorem read?_escapedSlash {place : Place} (reachable : place.isReachable = true) (opened : Text) :
    Reader.read? ⟨place, opened⟩ "<\\/" = Reader.read? ⟨place, opened⟩ "</" := by
  have inString {quote : Char} (quotes : isScriptQuote quote = true) :
      Reader.read? ⟨.string quote, opened⟩ "<\\/" = Reader.read? ⟨.string quote, opened⟩ "</" := by
    simp only [isScriptQuote, Bool.or_eq_true, beq_iff_eq] at quotes
    rcases quotes with (rfl | rfl) | rfl <;> rfl
  have inEscape {quote : Char} (quotes : isScriptQuote quote = true) :
      Reader.read? ⟨.escaped quote, opened⟩ "<\\/" = Reader.read? ⟨.escaped quote, opened⟩ "</" := by
    simp only [isScriptQuote, Bool.or_eq_true, beq_iff_eq] at quotes
    rcases quotes with (rfl | rfl) | rfl <;> rfl
  cases place with
  | string quote => exact inString reachable
  | escaped quote => exact inEscape reachable
  | _ => rfl

/-- The backslash in a slash that would end the page's script changes nothing for a reader. -/
theorem read?_replace {place : Place} (reachable : place.isReachable = true) (opened text : Text) :
    Reader.read? ⟨place, opened⟩ (Text.replace "</" "<\\/" text) = Reader.read? ⟨place, opened⟩ text := by
  fun_induction Text.replace "</" "<\\/" text generalizing place opened with
  | case1 => rfl
  | case2 c rest remainder found _ ih =>
    rw [Text.eq_of_after? found, Reader.read?_append, Reader.read?_append, read?_escapedSlash reachable]
    cases read : Reader.read? ⟨place, opened⟩ "</" with
    | none => rfl
    | some next => exact ih (isReachable_of_read? read reachable) next.opened
  | case3 c rest _ _ _ ih | case4 c rest _ ih =>
    rw [Reader.read?, Reader.read?]
    cases stepped : Reader.step? ⟨place, opened⟩ c with
    | none => rfl
    | some next =>
      obtain ⟨below, -, rfl⟩ := Option.map_eq_some_iff.1 stepped
      exact ih (Place.isReachable_step reachable c) below

theorem isSealed_seed (value : Value) : IsSealed (seed value) := by
  have literal : Keeps value.literal := by
    cases value with
    | string text => exact keeps_string rfl (.flatMap fun c _ => unquoted_jsonChar c)
    | int number =>
      apply keeps_of_flat
      intro c member
      have digits (n : Nat) (listed : c ∈ Text.ofNat n) : isFlatCode c = true :=
        isFlatCode_of_class (Text.isDigit_of_mem_ofNat listed) (by decide)
      cases number with
      | ofNat n => exact digits n member
      | negSucc n =>
        rcases List.mem_cons.1 member with rfl | later
        · decide
        · exact digits (n + 1) later
    | boolean truth => cases truth <;> exact fun _ => rfl
  refine ⟨.code, rfl, ?_⟩
  rw [seed, read?_replace rfl, literal]

/-- The characters of a name between single quotes. -/
def isQuotable (c : Char) : Bool := c != '\'' && c != '\\'

theorem keeps_quoted {text : Text} (quotable : ∀ c ∈ text, isQuotable c = true) : Keeps ('\'' :: text ++ ['\'']) := by
  refine keeps_string rfl (.of_solid fun c member => ?_)
  simpa [isQuotable] using quotable c member

section Calls

variable {name selector event value handler : Text}

theorem call_none (function name : Text) :
    call function name none = ("gtml." : Text) ++ function ++ ('(' :: ('\'' :: name ++ ['\'']) ++ [')']) := by
  have opening : ("('" : Text) = ['(', '\''] := rfl
  have quote : ("'" : Text) = ['\''] := rfl
  have closing : (")" : Text) = [')'] := rfl
  unfold call
  rw [opening, quote, closing]
  generalize ("gtml." : Text) = module
  simp

theorem call_some (function name argument : Text) : call function name (some argument) =
    ("gtml." : Text) ++ function ++ ('(' :: (('\'' :: name ++ ['\'']) ++ (", " ++ argument)) ++ [')']) := by
  have opening : ("('" : Text) = ['(', '\''] := rfl
  have quote : ("'" : Text) = ['\''] := rfl
  have closing : (")" : Text) = [')'] := rfl
  unfold call
  rw [opening, quote, closing]
  dsimp only
  generalize ("gtml." : Text) = module
  generalize (", " : Text) = comma
  simp

theorem keeps_call {function : Text} (flat : ∀ c ∈ function, isFlatCode c = true)
    (named : ∀ c ∈ name, isQuotable c = true) {argument? : Option Text}
    (given : ∀ argument, argument? = some argument → IsSealed argument) : Keeps (call function name argument?) := by
  have module : Keeps ("gtml." : Text) := keeps_of_flat (by decide)
  have begun := module.append (keeps_of_flat flat)
  cases argument? with
  | none =>
    rw [call_none]
    exact begun.append (keeps_parenthesized (keeps_quoted named).isSealed)
  | some argument =>
    have comma : Keeps (", " : Text) := keeps_of_flat (by decide)
    rw [call_some]
    exact begun.append (keeps_parenthesized ((keeps_quoted named).append_sealed (comma.append_sealed (given argument rfl))))

theorem keeps_getCall (named : ∀ c ∈ name, isQuotable c = true) : Keeps (getCall name) := by
  have get : ∀ c ∈ ("get" : Text), isFlatCode c = true := by decide
  exact keeps_call get named nofun

theorem keeps_incrementCall (named : ∀ c ∈ name, isQuotable c = true) (up : Bool) : Keeps (incrementCall name up) := by
  have set : ∀ c ∈ ("set" : Text), isFlatCode c = true := by decide
  have space : Keeps (" " : Text) := keeps_of_flat (by decide)
  have sign : Keeps [if up then '+' else '-'] := by cases up <;> exact keeps_of_flat (by decide)
  have one : Keeps (" 1" : Text) := keeps_of_flat (by decide)
  have changed := (((keeps_getCall named).append space).append sign).append one
  refine keeps_call set named fun argument same => ?_
  rw [← Option.some.inj same]
  exact changed.isSealed

theorem queryCall_eq (selector : Text) (every : Bool) : queryCall selector every =
    ("document.querySelector" : Text) ++ (if every then "All" else "") ++ ('(' :: ('\'' :: selector ++ ['\'']) ++ [')']) := by
  have opening : ("('" : Text) = ['(', '\''] := rfl
  have closing : ("')" : Text) = ['\'', ')'] := rfl
  unfold queryCall
  rw [opening, closing]
  generalize ("document.querySelector" : Text) = query
  simp

theorem keeps_queryCall (chosen : ∀ c ∈ selector, isQuotable c = true) (every : Bool) :
    Keeps (queryCall selector every) := by
  have query : Keeps ("document.querySelector" : Text) := keeps_of_flat (by decide)
  rw [queryCall_eq]
  refine (query.append ?_).append (keeps_parenthesized (keeps_quoted chosen).isSealed)
  cases every <;> exact keeps_of_flat (by decide)

/-- What is written between the element of a handler and the next statement. -/
def assignmentTo (event handler : Text) : Text := "." ++ event ++ " = " ++ handler ++ [';']

theorem keeps_assignmentTo (flat : ∀ c ∈ event, isFlatCode c = true) (closed : IsSealed handler) :
    Keeps (assignmentTo event handler) := by
  have dot : Keeps ("." : Text) := keeps_of_flat (by decide)
  have equals : Keeps (" = " : Text) := keeps_of_flat (by decide)
  have assigned := ((dot.append (keeps_of_flat flat)).append equals).append_sealed closed
  exact assigned.append_keeps (by decide) (keeps_of_flat (by decide))

theorem bindingCall_false : bindingCall selector false event handler =
    queryCall selector false ++ assignmentTo event handler := by
  have semicolon : (";" : Text) = [';'] := rfl
  rw [bindingCall, if_neg Bool.false_ne_true, semicolon, assignmentTo]
  generalize ("." : Text) = dot
  generalize (" = " : Text) = equals
  simp

theorem bindingCall_true : bindingCall selector true event handler = queryCall selector true ++ ((".forEach" : Text) ++
    ('(' :: (("function(el) " : Text) ++ ('\x7b' :: ((" el" : Text) ++ assignmentTo event handler ++ [' ']) ++ ['\x7d'])) ++
      [')']) ++ [';']) := by
  have front : (".forEach(function(el) \x7b el." : Text) =
      (".forEach" : Text) ++ '(' :: (("function(el) " : Text) ++ '\x7b' :: ((" el" : Text) ++ ("." : Text))) := rfl
  have back : ("; \x7d);" : Text) = [';', ' ', '\x7d', ')', ';'] := rfl
  rw [bindingCall, if_pos rfl, forEach, front, back, assignmentTo]
  generalize (".forEach" : Text) = each
  generalize ("function(el) " : Text) = head
  generalize (" el" : Text) = element
  generalize ("." : Text) = dot
  generalize (" = " : Text) = equals
  simp

/-- The assignment of a sealed handler to one element or to each of several keeps the brackets. -/
theorem keeps_bindingCall (chosen : ∀ c ∈ selector, isQuotable c = true) (flat : ∀ c ∈ event, isFlatCode c = true)
    (closed : IsSealed handler) (every : Bool) : Keeps (bindingCall selector every event handler) := by
  have assigned := keeps_assignmentTo flat closed
  cases every with
  | false =>
    rw [bindingCall_false]
    exact (keeps_queryCall chosen false).append assigned
  | true =>
    have each : Keeps (".forEach" : Text) := keeps_of_flat (by decide)
    have head : Keeps ("function(el) " : Text) := fun _ => rfl
    have element : Keeps (" el" : Text) := keeps_of_flat (by decide)
    have space : Keeps [' '] := keeps_of_flat (by decide)
    have semicolon : Keeps [';'] := keeps_of_flat (by decide)
    have function := head.append (keeps_braced ((element.append assigned).append space).isSealed)
    rw [bindingCall_true]
    exact (keeps_queryCall chosen true).append ((each.append (keeps_parenthesized function.isSealed)).append semicolon)

theorem isSealed_operated (named : ∀ c ∈ name, isQuotable c = true) {operator : Option Char}
    (known : ∀ sign, operator = some sign → sign ∈ ("-+*/%" : Text)) (closed : IsSealed value) :
    IsSealed (operated name operator value) := by
  cases operator with
  | none => exact closed
  | some sign =>
    have whole : operated name (some sign) value =
        getCall name ++ ([' ', sign, ' '] ++ ('(' :: value ++ [')'])) := by
      have space : (" " : Text) = [' '] := rfl
      have opening : (" (" : Text) = [' ', '('] := rfl
      have closing : (")" : Text) = [')'] := rfl
      rw [operated, space, opening, closing]
      simp
    have signed : Keeps [' ', sign, ' '] := by
      have listed := known sign rfl
      fin_cases listed <;> exact fun _ => rfl
    rw [whole]
    exact ((keeps_getCall named).append (signed.append (keeps_parenthesized closed))).isSealed

end Calls

end Script

end ComponentPages
