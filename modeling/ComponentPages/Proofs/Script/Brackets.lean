import ComponentPages.Proofs.Script.Nested

/-!
Brackets of browser script. A reader knows strings and comments and keeps the brackets that are open, so that it tells
whether those in code match. What is generated around a text leaves it in code with the brackets it had.
-/
namespace ComponentPages

/-- Where a reader of script is. In a margin it is in code, with only white space since a line comment. -/
inductive Place where
  | code
  | slash
  | margin
  | string (quote : Char)
  | escaped (quote : Char)
  | line
  | block
  | star
deriving DecidableEq

namespace Place

/-- The place after a character in code that ends no comment mark. -/
def enter (c : Char) : Place := if isScriptQuote c then .string c else if c = '/' then .slash else .code

def step : Place → Char → Place
  | .code, c => enter c
  | .slash, c => if c = '/' then .line else if c = '*' then .block else enter c
  | .margin, c => if isBlank c then .margin else enter c
  | .string quote, c => if c = '\\' then .escaped quote else if c = quote then .code else .string quote
  | .escaped quote, _ => .string quote
  | .line, c => if c = '\n' then .margin else .line
  | .block, c => if c = '*' then .star else .block
  | .star, c => if c = '/' then .code else if c = '*' then .star else .block

/-- Brackets count in code only. -/
def isCode : Place → Bool
  | .code | .slash | .margin => true
  | _ => false

def isComment : Place → Bool
  | .line | .block | .star => true
  | _ => false

/-- The reader is outside of strings and comments, and so it was before the white space it read last. -/
def isSettled : Place → Bool
  | .code | .slash => true
  | _ => false

/-- What a reader that knows no comments takes the place for. -/
def blind : Place → ScriptState
  | .string quote => .string quote
  | .escaped quote => .escaped quote
  | _ => .code

/-- Only quotes begin a string. -/
def isReachable : Place → Bool
  | .string quote | .escaped quote => isScriptQuote quote
  | _ => true

theorem isReachable_enter (c : Char) : (enter c).isReachable = true := by
  rw [enter]
  split
  · next quotes => exact quotes
  · split <;> rfl

theorem isReachable_step {place : Place} (reachable : place.isReachable = true) (c : Char) :
    (place.step c).isReachable = true := by
  cases place with
  | code => exact isReachable_enter c
  | slash =>
    simp only [step]
    split
    · rfl
    · split
      · rfl
      · exact isReachable_enter c
  | margin =>
    simp only [step]
    split
    · rfl
    · exact isReachable_enter c
  | string quote =>
    simp only [step]
    split
    · exact reachable
    · split
      · rfl
      · exact reachable
  | escaped quote => exact reachable
  | line | block =>
    simp only [step]
    split <;> rfl
  | star =>
    simp only [step]
    split
    · rfl
    · split <;> rfl

theorem blind_of_isCode {place : Place} (code : place.isCode = true) : place.blind = .code := by
  cases place <;> first | rfl | cases code

theorem blind_of_isString {place : Place} (inside : place.isCode = false) (other : place.isComment = false) :
    place.blind ≠ .code := by
  cases place with
  | string | escaped => exact ScriptState.noConfusion
  | code | slash | margin => cases inside
  | line | block | star => cases other

theorem isCode_of_isSettled {place : Place} (settled : place.isSettled = true) : place.isCode = true := by
  cases place <;> first | rfl | cases settled

end Place

namespace Script

/-- A reader of script and the brackets that it has open, the innermost first. -/
structure Reader where
  place : Place
  opened : Text
deriving DecidableEq

def pairs : Char → Char → Bool
  | '(', ')' | '[', ']' | '\x7b', '\x7d' => true
  | _, _ => false

theorem eq_of_pairs {opening closing : Char} (pair : pairs opening closing = true) :
    (opening = '(' ∧ closing = ')') ∨ (opening = '[' ∧ closing = ']') ∨ (opening = '\x7b' ∧ closing = '\x7d') := by
  unfold pairs at pair
  split at pair
  · exact .inl ⟨rfl, rfl⟩
  · exact .inr (.inl ⟨rfl, rfl⟩)
  · exact .inr (.inr ⟨rfl, rfl⟩)
  · cases pair

/-- The open brackets after a character in code, unless it closes a bracket that is not the innermost one. -/
def bracket? (c : Char) (opened : Text) : Option Text :=
  if opensBracket c then some (c :: opened)
  else if closesBracket c then
    match opened with
    | [] => none
    | innermost :: outer => if pairs innermost c then some outer else none
  else some opened

namespace Reader

def step? (reader : Reader) (c : Char) : Option Reader :=
  (if reader.place.isCode then bracket? c reader.opened else some reader.opened).map (⟨reader.place.step c, ·⟩)

def read? (reader : Reader) : Text → Option Reader
  | [] => some reader
  | c :: text => (reader.step? c).bind (read? · text)

end Reader

/-- Outside of strings and comments the brackets of a text are balanced and properly nested. -/
def IsMatched (text : Text) : Prop := ∃ place, Reader.read? ⟨.code, []⟩ text = some ⟨place, []⟩

instance (text : Text) : Decidable (IsMatched text) :=
  decidable_of_iff ((Reader.read? ⟨.code, []⟩ text).any (·.opened.isEmpty) = true) <| by
    rw [Option.any_eq_true]
    constructor
    · rintro ⟨⟨place, opened⟩, read, empty⟩
      obtain rfl := List.isEmpty_iff.1 empty
      exact ⟨place, read⟩
    · rintro ⟨place, read⟩
      exact ⟨_, read, rfl⟩

/-- The brackets of a text match, and it ends outside of strings and comments. -/
def IsSealed (text : Text) : Prop :=
  ∃ place : Place, place.isSettled = true ∧ Reader.read? ⟨.code, []⟩ text = some ⟨place, []⟩

/-- No comment in the text holds a quote or a bracket, and the text ends outside of strings and comments. -/
def isTameFrom (place : Place) : Text → Bool
  | [] => place.isSettled
  | c :: text =>
    !(place.isComment && (isScriptQuote c || opensBracket c || closesBracket c)) && isTameFrom (place.step c) text

def isTame (text : Text) : Bool := isTameFrom .code text

namespace Reader

theorem read?_append (reader : Reader) (first second : Text) :
    reader.read? (first ++ second) = (reader.read? first).bind (read? · second) := by
  induction first generalizing reader with
  | nil => rfl
  | cons c first ih =>
    rw [List.cons_append, read?, read?, Option.bind_assoc]
    exact congrArg _ (funext fun next => ih next)

theorem read?_append_of_some {reader next : Reader} {first : Text} (read : reader.read? first = some next)
    (second : Text) : reader.read? (first ++ second) = next.read? second := by
  rw [read?_append, read, Option.bind_some]

theorem step?_code {place : Place} (code : place.isCode = true) (c : Char) (opened : Text) :
    step? ⟨place, opened⟩ c = (bracket? c opened).map (⟨place.step c, ·⟩) := by
  simp only [step?, code, if_true]

theorem step?_inside {place : Place} (inside : place.isCode = false) (c : Char) (opened : Text) :
    step? ⟨place, opened⟩ c = some ⟨place.step c, opened⟩ := by
  simp only [step?, inside, Bool.false_eq_true, if_false, Option.map_some]

theorem bracket?_append {c : Char} {opened later : Text} (counted : bracket? c opened = some later) (outer : Text) :
    bracket? c (opened ++ outer) = some (later ++ outer) := by
  by_cases opens : opensBracket c = true
  · simp only [bracket?, opens, if_true, Option.some.injEq] at counted ⊢
    rw [← counted, List.cons_append]
  · by_cases closes : closesBracket c = true
    · simp only [bracket?, opens, closes, Bool.false_eq_true, if_false, if_true] at counted ⊢
      cases opened with
      | nil => cases counted
      | cons innermost opened =>
        rw [List.cons_append]
        dsimp only at counted ⊢
        split at counted
        · next pair => rw [if_pos pair, ← Option.some.inj counted]
        · cases counted
    · simp only [bracket?, opens, closes, Bool.false_eq_true, if_false, Option.some.injEq] at counted ⊢
      rw [counted]

theorem step?_outer {place place' : Place} {c : Char} {opened opened' : Text}
    (stepped : step? ⟨place, opened⟩ c = some ⟨place', opened'⟩) (outer : Text) :
    step? ⟨place, opened ++ outer⟩ c = some ⟨place', opened' ++ outer⟩ := by
  cases inCode : place.isCode with
  | true =>
    rw [step?_code inCode] at stepped ⊢
    obtain ⟨later, counted, same⟩ := Option.map_eq_some_iff.1 stepped
    cases same
    rw [bracket?_append counted, Option.map_some]
  | false =>
    rw [step?_inside inCode] at stepped ⊢
    cases stepped
    rfl

/-- Brackets that were open before stay open below. -/
theorem read?_outer {place place' : Place} {opened opened' text : Text}
    (read : read? ⟨place, opened⟩ text = some ⟨place', opened'⟩) (outer : Text) :
    read? ⟨place, opened ++ outer⟩ text = some ⟨place', opened' ++ outer⟩ := by
  induction text generalizing place opened with
  | nil =>
    cases read
    rfl
  | cons c text ih =>
    rw [read?, Option.bind_eq_some_iff] at read
    obtain ⟨⟨next, below⟩, stepped, later⟩ := read
    rw [read?, step?_outer stepped, Option.bind_some]
    exact ih later

end Reader

/-- A sealed text leaves the open brackets as they are. -/
theorem IsSealed.read? {text : Text} (sealed : IsSealed text) :
    ∃ place : Place, place.isSettled = true ∧ ∀ opened, Reader.read? ⟨.code, opened⟩ text = some ⟨place, opened⟩ := by
  obtain ⟨place, settled, read⟩ := sealed
  exact ⟨place, settled, fun opened => Reader.read?_outer read opened⟩

section Characters

variable {c : Char}

/-- The characters of code that are neither a quote nor a bracket nor a slash. -/
def isFlatCode (c : Char) : Bool := !isScriptQuote c && !opensBracket c && !closesBracket c && c != '/'

theorem flat_of_isFlatCode (flat : isFlatCode c = true) :
    isScriptQuote c = false ∧ opensBracket c = false ∧ closesBracket c = false ∧ c ≠ '/' := by
  simp only [isFlatCode, Bool.and_eq_true, Bool.not_eq_true', bne_iff_ne, ne_eq] at flat
  exact ⟨flat.1.1.1, flat.1.1.2, flat.1.2, flat.2⟩

theorem isFlatCode_of_class {class_ : Char → Bool} (member : class_ c = true)
    (others : ∀ d ∈ ("'\"`()[]\x7b\x7d/" : Text), class_ d = false) : isFlatCode c = true := by
  have foreign {d : Char} (listed : d ∈ ("'\"`()[]\x7b\x7d/" : Text)) : c ≠ d := by
    rintro rfl
    rw [others c listed] at member
    cases member
  simp [isFlatCode, isScriptQuote, opensBracket, closesBracket, foreign (d := '\'') (by decide),
    foreign (d := '"') (by decide), foreign (d := '`') (by decide), foreign (d := '(') (by decide),
    foreign (d := ')') (by decide), foreign (d := '[') (by decide), foreign (d := ']') (by decide),
    foreign (d := '\x7b') (by decide), foreign (d := '\x7d') (by decide), foreign (d := '/') (by decide)]

theorem isFlatCode_of_isBlank (blank : isBlank c = true) : isFlatCode c = true := isFlatCode_of_class blank (by decide)

theorem bracket?_of_flat (flat : isFlatCode c = true) (opened : Text) : bracket? c opened = some opened := by
  obtain ⟨-, opens, closes, -⟩ := flat_of_isFlatCode flat
  simp only [bracket?, opens, closes, Bool.false_eq_true, if_false]

theorem enter_of_flat (flat : isFlatCode c = true) : Place.enter c = .code := by
  obtain ⟨unquoted, -, -, slash⟩ := flat_of_isFlatCode flat
  rw [Place.enter, unquoted, if_neg Bool.false_ne_true, if_neg slash]

end Characters

namespace Reader

variable {place : Place} {c : Char} {opened : Text}

/-- From any place in code a character is read as from the start, unless it makes a slash into a comment mark or
leaves the reader in a margin. -/
theorem step?_of_isCode (code : place.isCode = true) (slash : place = .slash → c ≠ '/' ∧ c ≠ '*')
    (solid : place = .margin → isBlank c = false) : step? ⟨place, opened⟩ c = step? ⟨.code, opened⟩ c := by
  have enters : place.step c = Place.enter c := by
    cases place with
    | code => rfl
    | slash => simp only [Place.step, if_neg (slash rfl).1, if_neg (slash rfl).2]
    | margin => simp only [Place.step, solid rfl, Bool.false_eq_true, if_false]
    | _ => cases code
  rw [step?_code code, step?_code rfl, enters, Place.step]

theorem step?_of_isSettled (settled : place.isSettled = true) (slash : c ≠ '/' ∧ c ≠ '*') :
    step? ⟨place, opened⟩ c = step? ⟨.code, opened⟩ c := by
  cases place with
  | code => rfl
  | slash => exact step?_of_isCode rfl (fun _ => slash) (fun margin => nomatch margin)
  | _ => cases settled

theorem read?_of_isSettled (settled : place.isSettled = true) (slash : c ≠ '/' ∧ c ≠ '*') (text : Text) :
    read? ⟨place, opened⟩ (c :: text) = read? ⟨.code, opened⟩ (c :: text) := by
  rw [read?, read?, step?_of_isSettled settled slash]

theorem read?_flat {text : Text} (flat : ∀ c ∈ text, isFlatCode c = true) (opened : Text) :
    read? ⟨.code, opened⟩ text = some ⟨.code, opened⟩ := by
  induction text with
  | nil => rfl
  | cons c text ih =>
    have here := flat c List.mem_cons_self
    have stepped : step? ⟨.code, opened⟩ c = some ⟨.code, opened⟩ := by
      rw [step?_code rfl, bracket?_of_flat here, Place.step, enter_of_flat here, Option.map_some]
    rw [read?, stepped, Option.bind_some]
    exact ih fun d member => flat d (List.mem_cons_of_mem c member)

theorem step?_quote {quote : Char} (quotes : isScriptQuote quote = true) (opened : Text) :
    step? ⟨.code, opened⟩ quote = some ⟨.string quote, opened⟩ := by
  have brackets : opensBracket quote = false ∧ closesBracket quote = false := by
    simp only [isScriptQuote, Bool.or_eq_true, beq_iff_eq] at quotes
    rcases quotes with (rfl | rfl) | rfl <;> decide
  have counted : bracket? quote opened = some opened := by
    simp only [bracket?, brackets, Bool.false_eq_true, if_false]
  rw [step?_code rfl, counted, Place.step, Place.enter, if_pos quotes, Option.map_some]

/-- A string is read up to its closing quote. -/
theorem read?_unquoted {quote : Char} {inside : Text} (solid : quote ≠ '\\') (unquoted : Unquoted quote inside)
    (opened : Text) : read? ⟨.string quote, opened⟩ (inside ++ [quote]) = some ⟨.code, opened⟩ := by
  induction unquoted with
  | done => rw [List.nil_append, read?, step?_inside rfl, Place.step, if_neg solid, if_pos rfl, Option.bind_some, read?]
  | plain other plain _ ih =>
    rw [List.cons_append, read?, step?_inside rfl, Place.step, if_neg plain, if_neg other, Option.bind_some, ih]
  | escaped _ ih =>
    rw [List.cons_append, List.cons_append, read?, step?_inside rfl, Place.step, if_pos rfl, Option.bind_some, read?,
      step?_inside rfl, Place.step, Option.bind_some, ih]

theorem read?_string {quote : Char} {inside : Text} (quotes : isScriptQuote quote = true)
    (unquoted : Unquoted quote inside) (opened : Text) :
    read? ⟨.code, opened⟩ (quote :: inside ++ [quote]) = some ⟨.code, opened⟩ := by
  have solid : quote ≠ '\\' := by
    rintro rfl
    cases quotes
  rw [List.cons_append, read?, step?_quote quotes, Option.bind_some, read?_unquoted solid unquoted]

end Reader

section Cutting

variable {place : Place} {c : Char} {opened outer rest : Text} {final : Reader}

/-- Outside of comments, and on all that is no quote in them, a reader that knows no comments goes along. -/
theorem blind_step (tame : place.isComment = true → isScriptQuote c = false) :
    (place.step c).blind = place.blind.step c := by
  have entered : (Place.enter c).blind = ScriptState.code.step c := by
    rw [Place.enter, ScriptState.step]
    split
    · rfl
    · split <;> rfl
  have stays (unquoted : isScriptQuote c = false) : ScriptState.code.step c = .code := by
    rw [ScriptState.step, unquoted, if_neg Bool.false_ne_true]
  cases place with
  | code => exact entered
  | slash =>
    rw [Place.step]
    split
    · next line => rw [line]; rfl
    · split
      · next block => rw [block]; rfl
      · exact entered
  | margin =>
    rw [Place.step]
    split
    · next blank => exact (stays (flat_of_isFlatCode (isFlatCode_of_isBlank blank)).1).symm
    · exact entered
  | string quote =>
    rw [Place.step, Place.blind, ScriptState.step]
    split
    · rfl
    · split <;> rfl
  | escaped quote => rfl
  | line =>
    refine Eq.trans ?_ (stays (tame rfl)).symm
    rw [Place.step]
    split <;> rfl
  | block =>
    refine Eq.trans ?_ (stays (tame rfl)).symm
    rw [Place.step]
    split <;> rfl
  | star =>
    refine Eq.trans ?_ (stays (tame rfl)).symm
    rw [Place.step]
    split
    · rfl
    · split <;> rfl

theorem tame_cons {text : Text} (tame : isTameFrom place (c :: text) = true) :
    (place.isComment = true → isScriptQuote c = false ∧ opensBracket c = false ∧ closesBracket c = false) ∧
      isTameFrom (place.step c) text = true := by
  simp only [isTameFrom, Bool.and_eq_true, Bool.not_eq_true'] at tame
  refine ⟨fun comment => ?_, tame.2⟩
  have quiet := tame.1
  rw [comment, Bool.true_and, Bool.or_eq_false_iff, Bool.or_eq_false_iff] at quiet
  exact ⟨quiet.1.1, quiet.1.2, quiet.2⟩

/-- What a reader does with a character that is no closing bracket of `outer`. -/
theorem exists_step {next : Reader} (stepped : Reader.step? ⟨place, opened ++ outer⟩ c = some next)
    (inner : place.isCode = true → closesBracket c = true → opened ≠ []) :
    ∃ later, Reader.step? ⟨place, opened⟩ c = some ⟨place.step c, later⟩ ∧ next = ⟨place.step c, later ++ outer⟩ := by
  cases inCode : place.isCode with
  | false =>
    rw [Reader.step?_inside inCode] at stepped
    exact ⟨opened, Reader.step?_inside inCode c opened, (Option.some.inj stepped).symm⟩
  | true =>
    rw [Reader.step?_code inCode] at stepped ⊢
    obtain ⟨after, counted, rfl⟩ := Option.map_eq_some_iff.1 stepped
    suffices found : ∃ later, bracket? c opened = some later by
      obtain ⟨later, here⟩ := found
      refine ⟨later, by rw [here]; rfl, ?_⟩
      rw [Reader.bracket?_append here] at counted
      rw [Option.some.inj counted]
    by_cases opens : opensBracket c = true
    · exact ⟨c :: opened, by simp only [bracket?, opens, if_true]⟩
    by_cases closes : closesBracket c = true
    · obtain ⟨innermost, below, rfl⟩ := List.exists_cons_of_ne_nil (inner inCode closes)
      simp only [bracket?, opens, closes, Bool.false_eq_true, if_false, if_true, List.cons_append] at counted ⊢
      split at counted
      · next pair => exact ⟨below, if_pos pair⟩
      · cases counted
    · exact ⟨opened, by simp only [bracket?, opens, closes, Bool.false_eq_true, if_false]⟩

/-- The brackets that a reader has open are as many as the model's scan of a value counts. -/
theorem length_of_step {later : Text} (stepped : Reader.step? ⟨place, opened⟩ c = some ⟨place.step c, later⟩)
    (tame : place.isComment = true → isScriptQuote c = false ∧ opensBracket c = false ∧ closesBracket c = false) :
    later.length = bracketsAfter place.blind opened.length c := by
  cases inCode : place.isCode with
  | false =>
    rw [Reader.step?_inside inCode] at stepped
    have same : opened = later := congrArg Reader.opened (Option.some.inj stepped)
    rw [bracketsAfter]
    cases comment : place.isComment with
    | true =>
      obtain ⟨-, opens, closes⟩ := tame comment
      simp [opens, closes, same]
    | false =>
      rw [if_neg (Place.blind_of_isString inCode comment), same]
  | true =>
    rw [Reader.step?_code inCode] at stepped
    obtain ⟨after, counted, same⟩ := Option.map_eq_some_iff.1 stepped
    obtain rfl : after = later := congrArg Reader.opened same
    rw [bracketsAfter, if_pos (Place.blind_of_isCode inCode)]
    by_cases opens : opensBracket c = true
    · simp only [bracket?, opens, if_true, Option.some.injEq] at counted ⊢
      rw [← counted, List.length_cons]
    by_cases closes : closesBracket c = true
    · simp only [bracket?, opens, closes, Bool.false_eq_true, if_false, if_true] at counted ⊢
      cases opened with
      | nil => cases counted
      | cons innermost below =>
        dsimp only at counted
        split at counted
        · rw [← Option.some.inj counted, List.length_cons, Nat.add_sub_cancel]
        · cases counted
    · simp only [bracket?, opens, closes, Bool.false_eq_true, if_false, Option.some.injEq] at counted ⊢
      rw [counted]

/-- A tame value of matched script is sealed: the scan that knows no comments ends it where its brackets are closed. -/
theorem read?_splitValue (read : Reader.read? ⟨place, opened ++ outer⟩ rest = some final) (closed : final.opened = [])
    (tame : isTameFrom place (splitValue place.blind opened.length rest).1 = true) :
    ∃ last : Place, last.isSettled = true ∧
      Reader.read? ⟨place, opened⟩ (splitValue place.blind opened.length rest).1 = some ⟨last, []⟩ ∧
      Reader.read? ⟨last, outer⟩ (splitValue place.blind opened.length rest).2 = some final := by
  induction rest generalizing place opened with
  | nil =>
    rw [Reader.read?, Option.some.injEq] at read
    subst read
    obtain ⟨rfl, rfl⟩ := List.append_eq_nil_iff.1 closed
    exact ⟨place, tame, rfl, rfl⟩
  | cons c rest ih =>
    by_cases ends : endsValue place.blind opened.length c = true
    · have empty : opened = [] := by
        simp only [endsValue, Bool.and_eq_true, decide_eq_true_eq] at ends
        exact List.eq_nil_of_length_eq_zero ends.1.2
      subst empty
      rw [splitValue, if_pos ends] at tame ⊢
      exact ⟨place, tame, rfl, read⟩
    · rw [splitValue, if_neg ends] at tame ⊢
      obtain ⟨quiet, tame⟩ := tame_cons tame
      rw [Reader.read?, Option.bind_eq_some_iff] at read
      obtain ⟨next, stepped, read⟩ := read
      obtain ⟨later, here, rfl⟩ := exists_step stepped fun inCode closes empty => by
        apply ends
        simp [endsValue, Place.blind_of_isCode inCode, empty, closes]
      have same := blind_step fun comment => (quiet comment).1
      rw [← same, ← length_of_step here quiet] at tame ⊢
      obtain ⟨last, settled, inside, behind⟩ := ih read tame
      refine ⟨last, settled, ?_, behind⟩
      rw [Reader.read?, here, Option.bind_some]
      exact inside

theorem count_of_step {later : Text} (stepped : Reader.step? ⟨place, opened⟩ c = some ⟨place.step c, later⟩)
    (tame : place.isComment = true → isScriptQuote c = false ∧ opensBracket c = false ∧ closesBracket c = false) :
    later.count '(' = if place.blind = .code then
      if c = '(' then opened.count '(' + 1 else if c = ')' then opened.count '(' - 1 else opened.count '('
      else opened.count '(' := by
  cases inCode : place.isCode with
  | false =>
    rw [Reader.step?_inside inCode] at stepped
    obtain rfl : opened = later := congrArg Reader.opened (Option.some.inj stepped)
    cases comment : place.isComment with
    | true =>
      obtain ⟨-, opens, closes⟩ := tame comment
      have opening : c ≠ '(' := by
        rintro rfl
        cases opens
      have closing : c ≠ ')' := by
        rintro rfl
        cases closes
      simp only [opening, closing, if_false, ite_self]
    | false => rw [if_neg (Place.blind_of_isString inCode comment)]
  | true =>
    rw [Reader.step?_code inCode] at stepped
    obtain ⟨after, counted, same⟩ := Option.map_eq_some_iff.1 stepped
    obtain rfl : after = later := congrArg Reader.opened same
    rw [if_pos (Place.blind_of_isCode inCode)]
    by_cases opens : opensBracket c = true
    · simp only [bracket?, opens, if_true, Option.some.injEq] at counted
      have other : c ≠ ')' := by
        rintro rfl
        cases opens
      rw [← counted, List.count_cons, if_neg other]
      by_cases round : c = '(' <;> simp [round]
    by_cases closes : closesBracket c = true
    · simp only [bracket?, opens, closes, Bool.false_eq_true, if_false, if_true] at counted
      cases opened with
      | nil => cases counted
      | cons innermost below =>
        dsimp only at counted
        split at counted
        · next pair =>
          have other : c ≠ '(' := by
            rintro rfl
            cases closes
          rw [← Option.some.inj counted, List.count_cons, if_neg other]
          rcases eq_of_pairs pair with ⟨rfl, rfl⟩ | ⟨rfl, rfl⟩ | ⟨rfl, rfl⟩ <;> simp
        · cases counted
    · simp only [bracket?, opens, closes, Bool.false_eq_true, if_false, Option.some.injEq] at counted
      rw [counted, if_neg (by rintro rfl; exact opens rfl), if_neg (by rintro rfl; exact closes rfl)]

/-- A tame handler of matched script is sealed: the scan that knows no comments ends it at the parenthesis that
closes the binding. -/
theorem read?_close? {inside after : Text} (read : Reader.read? ⟨place, opened ++ '(' :: outer⟩ rest = some final)
    (closed : close? '(' ')' place.blind (opened.count '(' + 1) rest = some (inside, after))
    (tame : isTameFrom place inside = true) :
    ∃ last : Place, last.isSettled = true ∧ Reader.read? ⟨place, opened⟩ inside = some ⟨last, []⟩ ∧
      Reader.read? ⟨.code, outer⟩ after = some final := by
  induction rest generalizing place opened inside with
  | nil => cases closed
  | cons c rest ih =>
    rw [Reader.read?, Option.bind_eq_some_iff] at read
    obtain ⟨next, stepped, read⟩ := read
    rw [close?] at closed
    by_cases ends : place.blind = .code ∧ c = ')' ∧ opened.count '(' + 1 = 1
    · rw [if_pos ends] at closed
      cases closed
      obtain ⟨-, rfl, none⟩ := ends
      have inCode := Place.isCode_of_isSettled tame
      have closing : place.step ')' = .code := by cases place <;> first | rfl | cases tame
      rw [Reader.step?_code inCode, closing] at stepped
      obtain ⟨later, counted, rfl⟩ := Option.map_eq_some_iff.1 stepped
      cases opened with
      | nil =>
        cases counted
        exact ⟨place, tame, rfl, read⟩
      | cons innermost below =>
        change (if pairs innermost ')' = true then some (below ++ '(' :: outer) else Option.none) = some later at counted
        split at counted
        · next pair =>
          rcases eq_of_pairs pair with ⟨rfl, -⟩ | ⟨-, other⟩ | ⟨-, other⟩
          · simp at none
          · cases other
          · cases other
        · cases counted
    · rw [if_neg ends] at closed
      obtain ⟨⟨front, behind⟩, later, same⟩ := Option.map_eq_some_iff.1 closed
      cases same
      obtain ⟨quiet, tame⟩ := tame_cons tame
      obtain ⟨still, here, rfl⟩ := exists_step stepped fun inCode closes empty => by
        subst empty
        rw [List.nil_append, Reader.step?_code inCode] at stepped
        obtain ⟨_, counted, -⟩ := Option.map_eq_some_iff.1 stepped
        have round : c ≠ ')' := fun round => ends ⟨Place.blind_of_isCode inCode, round, rfl⟩
        have opens : opensBracket c = false := by
          simp only [closesBracket, Bool.or_eq_true, beq_iff_eq] at closes
          rcases closes with (rfl | rfl) | rfl <;> rfl
        simp only [bracket?, opens, closes, Bool.false_eq_true, if_false, if_true] at counted
        split at counted
        · next pair =>
          rcases eq_of_pairs pair with ⟨-, closing⟩ | ⟨other, -⟩ | ⟨other, -⟩
          · exact round closing
          · cases other
          · cases other
        · cases counted
      have same := blind_step fun comment => (quiet comment).1
      have count := count_of_step here quiet
      have depth : (if place.blind = .code then
          if c = '(' then opened.count '(' + 1 + 1 else if c = ')' then opened.count '(' + 1 - 1 else opened.count '(' + 1
          else opened.count '(' + 1) = still.count '(' + 1 := by
        rw [count]
        by_cases code : place.blind = .code
        · simp only [code, if_true]
          by_cases opens : c = '('
          · simp only [opens, if_true]
          · by_cases closes : c = ')'
            · have open_ : opened.count '(' ≠ 0 := fun none => ends ⟨code, closes, by rw [none]⟩
              rw [if_neg opens, if_neg opens, if_pos closes, if_pos closes]
              omega
            · simp only [opens, closes, if_false]
        · simp only [code, if_false]
      rw [← same] at later
      obtain ⟨last, settled, inner, beyond⟩ := ih read (depth ▸ later) tame
      refine ⟨last, settled, ?_, beyond⟩
      rw [Reader.read?, here, Option.bind_some]
      exact inner

end Cutting

end Script

end ComponentPages
