import ComponentPages.Proofs.Expression.Scanning

/-!
How renderings begin and end, and how scans pass over them. A rendering begins with no `=` and ends in an
operand, which is why a scan never reads two neighbouring operators as one, nor a binary minus as a sign.
-/
namespace ComponentPages

namespace Expression

theorem isPlain_of_isIdentifierPart {c : Char} (part : isIdentifierPart c = true) :
    isPlain c = true ∧ c ≠ '-' := by
  constructor
  · simp [isPlain, part]
  · rintro rfl
    exact absurd part (by decide)

theorem isPlain_of_isBlank {c : Char} (blank : isBlank c = true) : isPlain c = true ∧ c ≠ '-' := by
  constructor
  · simp [isPlain, blank]
  · rintro rfl
    exact absurd blank (by decide)

/-! ### Tokens -/

/-- A token is a quotation, or a number or word that a minus sign may precede. -/
theorem Token.shape {term : Term} {written : Text} (token : Token term written) :
    (∃ sign body, written = sign ++ body ∧ (sign = [] ∨ sign = ['-']) ∧
      ∀ c ∈ body, isPlain c = true ∧ c ≠ '-') ∨
    ∃ quote body, written = quote :: body ++ [quote] ∧ isQuote quote = true ∧ quote ∉ body := by
  cases token with
  | truth => exact .inl ⟨[], "true", rfl, .inl rfl, by decide⟩
  | falsity => exact .inl ⟨[], "false", rfl, .inl rfl, by decide⟩
  | natural nonempty decimal =>
    refine .inl ⟨[], written, rfl, .inl rfl, ?_⟩
    intro c member
    exact isPlain_of_isIdentifierPart (isIdentifierPart_of_isDigit (decimal c member))
  | @negative space digits blank nonempty decimal =>
    refine .inl ⟨['-'], space ++ digits, rfl, .inr rfl, ?_⟩
    intro c member
    rcases List.mem_append.1 member with inSpace | inDigits
    · exact isPlain_of_isBlank (blank c inSpace)
    · exact isPlain_of_isIdentifierPart (isIdentifierPart_of_isDigit (decimal c inDigits))
  | @string quote body quotes closed => exact .inr ⟨quote, body, rfl, quotes, closed⟩
  | @name name identifier noTruth noFalsity =>
    refine .inl ⟨[], written, rfl, .inl rfl, ?_⟩
    intro c member
    exact isPlain_of_isIdentifierPart ((isIdentifierPart_of_isIdentifier identifier).2 c member)

theorem Token.first {term : Term} {written : Text} (token : Token term written) :
    ∃ c rest, written = c :: rest ∧ isBlank c = false ∧ c ≠ '=' := by
  have word : ∀ text : Text, text ≠ [] → (∀ c ∈ text, isIdentifierPart c = true) →
      ∃ c rest, text = c :: rest ∧ isBlank c = false ∧ c ≠ '=' := by
    intro text nonempty parts
    obtain ⟨c, rest, rfl⟩ := List.exists_cons_of_ne_nil nonempty
    have part := parts c List.mem_cons_self
    refine ⟨c, rest, rfl, isBlank_of_isIdentifierPart part, ?_⟩
    rintro rfl
    exact absurd part (by decide)
  cases token with
  | truth => exact word _ (by decide) (by decide)
  | falsity => exact word _ (by decide) (by decide)
  | natural nonempty decimal => exact word _ nonempty fun c member => isIdentifierPart_of_isDigit (decimal c member)
  | negative blank nonempty decimal => exact ⟨'-', _, rfl, by decide, by decide⟩
  | string quotes closed =>
    refine ⟨_, _, rfl, isBlank_of_isQuote quotes, ?_⟩
    rintro rfl
    exact absurd quotes (by decide)
  | name identifier noTruth noFalsity =>
    have parts := isIdentifierPart_of_isIdentifier identifier
    exact word _ parts.1 parts.2

theorem Token.last {term : Term} {written : Text} (token : Token term written) :
    ∃ before c, written = before ++ [c] ∧ isBlank c = false ∧ isOperatorChar c = false := by
  have word : ∀ before text : Text, text ≠ [] → (∀ c ∈ text, isIdentifierPart c = true) →
      ∃ start c, before ++ text = start ++ [c] ∧ isBlank c = false ∧ isOperatorChar c = false := by
    intro before text nonempty parts
    have part := parts _ (List.getLast_mem nonempty)
    have plain := isPlain_of_isIdentifierPart part
    refine ⟨before ++ text.dropLast, text.getLast nonempty, ?_, isBlank_of_isIdentifierPart part,
      isOperatorChar_of_isPlain plain.1 plain.2⟩
    rw [List.append_assoc, List.dropLast_concat_getLast]
  cases token with
  | truth => exact word [] _ (by decide) (by decide)
  | falsity => exact word [] _ (by decide) (by decide)
  | natural nonempty decimal =>
    exact word [] _ nonempty fun c member => isIdentifierPart_of_isDigit (decimal c member)
  | @negative space digits blank nonempty decimal =>
    exact word ('-' :: space) digits nonempty fun c member => isIdentifierPart_of_isDigit (decimal c member)
  | @string quote body quotes closed =>
    exact ⟨quote :: body, quote, rfl, isBlank_of_isQuote quotes, isOperatorChar_of_isQuote quotes⟩
  | name identifier noTruth noFalsity =>
    have parts := isIdentifierPart_of_isIdentifier identifier
    exact word [] _ parts.1 parts.2

theorem Token.splitLeft?_append {term : Term} {written : Text} (token : Token term written)
    {operator : Operator} (rightward : operator.level < 8) (depth : Int) (rest : Text) :
    splitLeft? operator.symbol ⟨none, depth⟩ (written ++ rest) =
      (splitLeft? operator.symbol ⟨none, depth⟩ rest).map (prepend written) := by
  rcases token.shape with ⟨sign, body, rfl, signed, plain⟩ | ⟨quote, body, rfl, quotes, closed⟩
  · apply splitLeft?_plain_append rightward
    intro c member
    rcases List.mem_append.1 member with inSign | inBody
    · rcases signed with rfl | rfl
      · simp at inSign
      · obtain rfl : c = '-' := by simpa using inSign
        decide
    · exact (plain c inBody).1
  · exact splitLeft?_quoted_append _ depth quotes closed rest

/-- A minus sign is passed over where it follows no operand. -/
theorem Token.splitRight?_append {term : Term} {written : Text} (token : Token term written)
    (operators : List Operator) {depth : Int} {before : Text}
    (sign : Nesting.isOutside ⟨none, depth⟩ = false ∨ endsOperand before = false) (passed : Text) :
    splitRight? operators ⟨none, depth⟩ (written.reverse ++ before) passed =
      splitRight? operators ⟨none, depth⟩ before (written ++ passed) := by
  rcases token.shape with ⟨start, body, rfl, signed, plain⟩ | ⟨quote, body, rfl, quotes, closed⟩
  · rw [List.reverse_append, List.append_assoc, splitRight?_plain_append operators depth plain]
    rcases signed with rfl | rfl
    · rfl
    · rw [List.reverse_singleton, List.singleton_append, splitRight?_of_none (operatorHere?_of_sign '-' sign),
        Nesting.step_of_plain depth (by decide) (by decide) (by decide)]
      rfl
  · exact splitRight?_quoted_append operators depth quotes closed before passed

theorem Token.close?_append {term : Term} {written : Text} (token : Token term written) (depth : Int)
    (rest : Text) :
    Nesting.close? '(' ')' ⟨none, depth⟩ (written ++ rest) =
      (Nesting.close? '(' ')' ⟨none, depth⟩ rest).map (prepend written) := by
  rcases token.shape with ⟨sign, body, rfl, signed, plain⟩ | ⟨quote, body, rfl, quotes, closed⟩
  · apply Nesting.close?_flat_append
    intro c member
    rcases List.mem_append.1 member with inSign | inBody
    · rcases signed with rfl | rfl
      · simp at inSign
      · obtain rfl : c = '-' := by simpa using inSign
        exact isFlat_of_isPlain (by decide)
    · exact isFlat_of_isPlain (plain c inBody).1
  · exact Nesting.close?_quoted_append depth (by decide) quotes closed rest

/-! ### The two ends of a rendering -/

theorem Rendered.first {level : Nat} {term : Term} {text : Text} (rendered : Rendered level term text) :
    ∃ c rest, text = c :: rest ∧ c ≠ '=' := by
  have spaced : ∀ before core : Text, IsSpace before → (∃ c rest, core = c :: rest ∧ c ≠ '=') →
      ∃ c rest, before ++ core = c :: rest ∧ c ≠ '=' := by
    intro before core blank begins
    cases before with
    | nil => exact begins
    | cons c before =>
      refine ⟨c, before ++ core, rfl, ?_⟩
      rintro rfl
      exact absurd (blank _ List.mem_cons_self) (by decide)
  induction rendered with
  | token spaceBefore spaceAfter token =>
    obtain ⟨c, rest, rfl, -, different⟩ := token.first
    rw [List.append_assoc]
    exact spaced _ _ spaceBefore ⟨c, _, rfl, different⟩
  | enclosed spaceBefore spaceAfter rendered ih =>
    rw [List.append_assoc]
    exact spaced _ _ spaceBefore ⟨'(', _, rfl, by decide⟩
  | binary binds leftRendered rightRendered leftIh rightIh =>
    obtain ⟨c, rest, rfl, different⟩ := leftIh
    exact ⟨c, _, rfl, different⟩

theorem Rendered.begins {level : Nat} {term : Term} {text : Text} (rendered : Rendered level term text) :
    ∃ space c rest, text = space ++ c :: rest ∧ IsSpace space ∧ isBlank c = false := by
  induction rendered with
  | @token level term written before after spaceBefore spaceAfter token =>
    obtain ⟨c, rest, rfl, solid, -⟩ := token.first
    exact ⟨before, c, rest ++ after, by simp, spaceBefore, solid⟩
  | @enclosed level term inside before after spaceBefore spaceAfter rendered ih =>
    exact ⟨before, '(', inside ++ [')'] ++ after, by simp, spaceBefore, by decide⟩
  | @binary level operator left right leftText rightText binds leftRendered rightRendered leftIh rightIh =>
    obtain ⟨space, c, rest, rfl, blank, solid⟩ := leftIh
    exact ⟨space, c, rest ++ operator.symbol ++ rightText, by simp, blank, solid⟩

theorem Rendered.ends {level : Nat} {term : Term} {text : Text} (rendered : Rendered level term text) :
    ∃ start c space, text = start ++ c :: space ∧ IsSpace space ∧ isBlank c = false ∧
      isOperatorChar c = false := by
  induction rendered with
  | @token level term written before after spaceBefore spaceAfter token =>
    obtain ⟨start, c, rfl, solid, operand⟩ := token.last
    exact ⟨before ++ start, c, after, by simp, spaceAfter, solid, operand⟩
  | @enclosed level term inside before after spaceBefore spaceAfter rendered ih =>
    exact ⟨before ++ '(' :: inside, ')', after, by simp, spaceAfter, by decide, by decide⟩
  | @binary level operator left right leftText rightText binds leftRendered rightRendered leftIh rightIh =>
    obtain ⟨start, c, space, rfl, blank, solid, operand⟩ := rightIh
    exact ⟨leftText ++ operator.symbol ++ start, c, space, by simp, blank, solid, operand⟩

theorem Rendered.trimLeft_ne_nil {level : Nat} {term : Term} {text : Text}
    (rendered : Rendered level term text) : Text.trimLeft text ≠ [] := by
  obtain ⟨space, c, rest, rfl, blank, solid⟩ := rendered.begins
  rw [Text.trimLeft_append_of_space blank, Text.trimLeft_cons_of_not_blank solid]
  exact List.cons_ne_nil c rest

theorem Rendered.trim_trimLeft {level : Nat} {term : Term} {text : Text}
    (rendered : Rendered level term text) : Text.trim (Text.trimLeft text) = Text.trim text := by
  obtain ⟨space, c, rest, rfl, blank, solid⟩ := rendered.begins
  rw [Text.trim, Text.trim, Text.trimLeft_append_of_space blank, Text.trimLeft_cons_of_not_blank solid,
    Text.trimLeft_cons_of_not_blank solid]

theorem Rendered.trimRight_ne_nil {level : Nat} {term : Term} {text : Text}
    (rendered : Rendered level term text) : Text.trimRight text ≠ [] := by
  obtain ⟨start, c, space, rfl, blank, solid, -⟩ := rendered.ends
  rw [List.append_cons, Text.trimRight_append_of_space _ blank, Text.trimRight_concat_of_not_blank solid]
  exact List.append_ne_nil_of_right_ne_nil start (List.cons_ne_nil c [])

theorem Rendered.endsOperand_reverse {level : Nat} {term : Term} {text : Text} (rendered : Rendered level term text) :
    endsOperand text.reverse = true := by
  obtain ⟨start, c, space, rfl, blank, solid, operand⟩ := rendered.ends
  have backwards : (start ++ c :: space).reverse = space.reverse ++ c :: start.reverse := by simp
  have reversed : IsSpace space.reverse := fun d member => blank d (List.mem_reverse.1 member)
  simp [endsOperand, backwards, Text.trimLeft_append_of_space reversed,
    Text.trimLeft_cons_of_not_blank solid, operand]

theorem Rendered.trimLeft {level : Nat} {term : Term} {text : Text} (rendered : Rendered level term text) :
    Rendered level term (Text.trimLeft text) := by
  have nothing : IsSpace [] := by simp [IsSpace]
  induction rendered with
  | @token level term written before after spaceBefore spaceAfter token =>
    obtain ⟨c, rest, rfl, solid, -⟩ := token.first
    rw [List.append_assoc, Text.trimLeft_append_of_space spaceBefore, List.cons_append,
      Text.trimLeft_cons_of_not_blank solid]
    exact .token nothing spaceAfter token
  | @enclosed level term inside before after spaceBefore spaceAfter rendered ih =>
    rw [List.append_assoc, Text.trimLeft_append_of_space spaceBefore, List.cons_append, List.cons_append,
      Text.trimLeft_cons_of_not_blank (by decide)]
    exact .enclosed nothing spaceAfter rendered
  | binary binds leftRendered rightRendered leftIh rightIh =>
    rw [List.append_assoc, Text.trimLeft_append leftRendered.trimLeft_ne_nil, ← List.append_assoc]
    exact .binary binds leftIh rightRendered

theorem Rendered.trimRight {level : Nat} {term : Term} {text : Text} (rendered : Rendered level term text) :
    Rendered level term (Text.trimRight text) := by
  have nothing : IsSpace [] := by simp [IsSpace]
  induction rendered with
  | @token level term written before after spaceBefore spaceAfter token =>
    obtain ⟨start, c, rfl, solid, -⟩ := token.last
    rw [Text.trimRight_append_of_space _ spaceAfter, ← List.append_assoc,
      Text.trimRight_concat_of_not_blank solid]
    have trimmed := @Rendered.token level _ _ _ _ spaceBefore nothing token
    rwa [List.append_nil, ← List.append_assoc] at trimmed
  | @enclosed level term inside before after spaceBefore spaceAfter rendered ih =>
    rw [Text.trimRight_append_of_space _ spaceAfter, ← List.append_assoc,
      Text.trimRight_concat_of_not_blank (by decide)]
    have trimmed := @Rendered.enclosed level _ _ _ _ spaceBefore nothing rendered
    rwa [List.append_nil, ← List.append_assoc] at trimmed
  | binary binds leftRendered rightRendered leftIh rightIh =>
    rw [Text.trimRight_append _ rightRendered.trimRight_ne_nil]
    exact .binary binds leftRendered rightIh

/-! ### Scans over a rendering -/

/-- The symbol of an operator begins nowhere in the symbol of a tighter one, since no operand begins with `=`. -/
theorem after?_symbol_eq_none {operator tighter : Operator} (rightward : operator.level < 8)
    (looser : operator.level < tighter.level) {suffix : Text} (ending : suffix <:+ tighter.symbol)
    (nonempty : suffix ≠ []) {c : Char} (different : c ≠ '=') (rest : Text) :
    Text.after? operator.symbol (suffix ++ c :: rest) = none := by
  cases operator <;> cases tighter <;> simp only [Operator.level] at rightward looser <;>
    first
    | omega
    | (simp [Operator.symbol, List.suffix_cons_iff, nonempty] at ending
       rcases ending with rfl | rfl <;> simp [Operator.symbol, Text.after?, different.symm])

theorem isFlat_of_mem_symbol (operator : Operator) : ∀ c ∈ operator.symbol, IsFlat c := by
  unfold IsFlat
  cases operator <;> decide

/-- The forward scan passes over an operator that is tighter than the one it looks for, or in parentheses. -/
theorem splitLeft?_symbol_append {operator tighter : Operator} (rightward : operator.level < 8) {depth : Int}
    (hidden : 0 < depth ∨ depth = 0 ∧ operator.level < tighter.level) {c : Char} (different : c ≠ '=')
    (rest : Text) :
    splitLeft? operator.symbol ⟨none, depth⟩ (tighter.symbol ++ c :: rest) =
      (splitLeft? operator.symbol ⟨none, depth⟩ (c :: rest)).map (prepend tighter.symbol) := by
  apply splitLeft?_append_of_unseen (isFlat_of_mem_symbol tighter)
  intro d tail ending
  rcases hidden with inside | ⟨-, looser⟩
  · exact symbolHere?_of_inside (isOutside_of_pos inside)
  · unfold symbolHere?
    split
    · exact after?_symbol_eq_none rightward looser ending (List.cons_ne_nil d tail) different rest
    · rfl

theorem Rendered.splitLeft?_append {level : Nat} {term : Term} {text : Text}
    (rendered : Rendered level term text) {operator : Operator} (rightward : operator.level < 8) {depth : Int}
    (hidden : 0 < depth ∨ depth = 0 ∧ operator.level < level) (rest : Text) :
    splitLeft? operator.symbol ⟨none, depth⟩ (text ++ rest) =
      (splitLeft? operator.symbol ⟨none, depth⟩ rest).map (prepend text) := by
  induction rendered generalizing depth rest with
  | @token level term written before after spaceBefore spaceAfter token =>
    have plain : ∀ space : Text, IsSpace space → ∀ c ∈ space, isPlain c = true :=
      fun space blank c member => (isPlain_of_isBlank (blank c member)).1
    rw [List.append_assoc, List.append_assoc, splitLeft?_plain_append rightward depth (plain _ spaceBefore),
      token.splitLeft?_append rightward, splitLeft?_plain_append rightward depth (plain _ spaceAfter),
      map_prepend_prepend, map_prepend_prepend, List.append_assoc]
  | @enclosed level term inside before after spaceBefore spaceAfter rendered ih =>
    have plain : ∀ space : Text, IsSpace space → ∀ c ∈ space, isPlain c = true :=
      fun space blank c member => (isPlain_of_isBlank (blank c member)).1
    have deeper : 0 < depth + 1 := by omega
    have opened : Nesting.step '(' ')' ⟨none, depth⟩ '(' = ⟨none, depth + 1⟩ := rfl
    have closed : Nesting.step '(' ')' ⟨none, depth + 1⟩ ')' = ⟨none, depth⟩ := by
      simp [Nesting.step, isQuote]
    have shape : before ++ ('(' :: inside ++ [')']) ++ after ++ rest =
        before ++ '(' :: (inside ++ ')' :: (after ++ rest)) := by simp
    rw [shape, splitLeft?_plain_append rightward depth (plain _ spaceBefore),
      splitLeft?_of_bracket _ _ (.inl rfl), opened, ih (.inl deeper), splitLeft?_of_bracket _ _ (.inr rfl), closed,
      splitLeft?_plain_append rightward depth (plain _ spaceAfter)]
    simp only [map_prepend_prepend]
    simp
  | @binary level operator' left right leftText rightText binds leftRendered rightRendered leftIh rightIh =>
    have toLeft := operator'.level_le_leftLevel
    have toRight := operator'.level_le_rightLevel
    obtain ⟨c, tail, begins, different⟩ := rightRendered.first
    have shape : leftText ++ operator'.symbol ++ rightText ++ rest =
        leftText ++ (operator'.symbol ++ (rightText ++ rest)) := by simp
    have behind : 0 < depth ∨ depth = 0 ∧ operator.level < operator'.level := by omega
    have symbol := splitLeft?_symbol_append rightward behind different (tail ++ rest)
    rw [← List.cons_append, ← begins] at symbol
    rw [shape, leftIh (by omega), symbol, rightIh (by omega)]
    simp only [map_prepend_prepend]
    simp

/-- The operators of one group, the looser group first, are those of one level. -/
def IsGroup (operators : List Operator) (level : Nat) : Prop :=
  operators = [.add, .subtract] ∧ level = 8 ∨ operators = [.multiply, .divide, .modulo] ∧ level = 9

/-- The backward scan passes over an operator of another group or in parentheses. -/
theorem operatorHere?_of_hidden {operators : List Operator} {level : Nat} (group : IsGroup operators level)
    {operator : Operator} {depth : Int} (hidden : 0 < depth ∨ depth = 0 ∧ level < operator.level)
    {c : Char} (member : c ∈ operator.symbol) (before : Text) :
    operatorHere? operators ⟨none, depth⟩ c before = none := by
  rcases hidden with inside | ⟨-, looser⟩
  · exact operatorHere?_of_sign c (.inl (isOutside_of_pos inside))
  · unfold operatorHere?
    split
    · rcases group with ⟨rfl, rfl⟩ | ⟨rfl, rfl⟩ <;> cases operator <;> simp only [Operator.level] at looser <;>
        first
        | omega
        | (obtain rfl := List.mem_singleton.1 member
           rfl)
    · rfl

theorem splitRight?_symbol_append {operators : List Operator} {level : Nat} (group : IsGroup operators level)
    {operator : Operator} {depth : Int} (hidden : 0 < depth ∨ depth = 0 ∧ level < operator.level)
    (before passed : Text) :
    splitRight? operators ⟨none, depth⟩ (operator.symbol.reverse ++ before) passed =
      splitRight? operators ⟨none, depth⟩ before (operator.symbol ++ passed) := by
  have pass : ∀ c ∈ operator.symbol, ∀ before passed,
      splitRight? operators ⟨none, depth⟩ (c :: before) passed =
        splitRight? operators ⟨none, depth⟩ before (c :: passed) := by
    intro c member before passed
    obtain ⟨noQuote, noOpening, noClosing⟩ := isFlat_of_mem_symbol operator c member
    rw [splitRight?_of_none (operatorHere?_of_hidden group hidden member before),
      Nesting.step_of_plain depth noQuote noClosing noOpening]
  revert pass
  generalize operator.symbol = symbol
  intro pass
  induction symbol generalizing before with
  | nil => rfl
  | cons c symbol ih =>
    rw [List.reverse_cons, List.append_assoc, List.singleton_append,
      ih (c :: before) (fun d member => pass d (List.mem_cons_of_mem c member)), pass c List.mem_cons_self]
    rfl

theorem endsOperand_symbol_append (operator : Operator) (before : Text) :
    endsOperand (operator.symbol.reverse ++ before) = false := by
  cases operator <;> simp [Operator.symbol, endsOperand, Text.trimLeft, isBlank, isOperatorChar]

theorem endsOperand_space_append {space : Text} (blank : IsSpace space) (before : Text) :
    endsOperand (space.reverse ++ before) = endsOperand before := by
  have reversed : IsSpace space.reverse := fun d member => blank d (List.mem_reverse.1 member)
  simp [endsOperand, Text.trimLeft_append_of_space reversed]

theorem Rendered.splitRight?_append {level : Nat} {term : Term} {text : Text}
    (rendered : Rendered level term text) {operators : List Operator} {groupLevel : Nat}
    (group : IsGroup operators groupLevel) {depth : Int} (hidden : 0 < depth ∨ depth = 0 ∧ groupLevel < level)
    {before : Text} (sign : 0 < depth ∨ endsOperand before = false) (passed : Text) :
    splitRight? operators ⟨none, depth⟩ (text.reverse ++ before) passed =
      splitRight? operators ⟨none, depth⟩ before (text ++ passed) := by
  have plain : ∀ space : Text, IsSpace space → ∀ c ∈ space, isPlain c = true ∧ c ≠ '-' :=
    fun space blank c member => isPlain_of_isBlank (blank c member)
  induction rendered generalizing depth before passed with
  | @token level term written spaceBefore spaceAfter blankBefore blankAfter token =>
    have outer : Nesting.isOutside ⟨none, depth⟩ = false ∨ endsOperand (spaceBefore.reverse ++ before) = false := by
      rw [endsOperand_space_append blankBefore]
      exact sign.imp_left isOutside_of_pos
    rw [List.reverse_append, List.reverse_append, List.append_assoc, List.append_assoc,
      splitRight?_plain_append operators depth (plain _ blankAfter), token.splitRight?_append operators outer,
      splitRight?_plain_append operators depth (plain _ blankBefore)]
    simp
  | @enclosed level term inside spaceBefore spaceAfter blankBefore blankAfter rendered ih =>
    have deeper : 0 < depth + 1 := by omega
    have closed : Nesting.step ')' '(' ⟨none, depth⟩ ')' = ⟨none, depth + 1⟩ := rfl
    have opened : Nesting.step ')' '(' ⟨none, depth + 1⟩ '(' = ⟨none, depth⟩ := by
      simp [Nesting.step, isQuote]
    have shape : (spaceBefore ++ ('(' :: inside ++ [')']) ++ spaceAfter).reverse ++ before =
        spaceAfter.reverse ++ ')' :: (inside.reverse ++ '(' :: (spaceBefore.reverse ++ before)) := by simp
    rw [shape, splitRight?_plain_append operators depth (plain _ blankAfter),
      splitRight?_of_none (operatorHere?_of_not_operator operators _ (by decide) _), closed,
      ih (.inl deeper) (.inl deeper),
      splitRight?_of_none (operatorHere?_of_not_operator operators _ (by decide) _), opened,
      splitRight?_plain_append operators depth (plain _ blankBefore)]
    simp
  | @binary level operator left right leftText rightText binds leftRendered rightRendered leftIh rightIh =>
    have toLeft := operator.level_le_leftLevel
    have toRight := operator.level_le_rightLevel
    have shape : (leftText ++ operator.symbol ++ rightText).reverse ++ before =
        rightText.reverse ++ (operator.symbol.reverse ++ (leftText.reverse ++ before)) := by simp
    have behind : 0 < depth ∨ depth = 0 ∧ groupLevel < operator.level := by omega
    rw [shape, rightIh (by omega) (.inr (endsOperand_symbol_append operator _)),
      splitRight?_symbol_append group behind, leftIh (by omega) sign]
    simp

theorem Rendered.close?_append {level : Nat} {term : Term} {text : Text} (rendered : Rendered level term text)
    {depth : Int} (inside : 1 ≤ depth) (rest : Text) :
    Nesting.close? '(' ')' ⟨none, depth⟩ (text ++ rest) =
      (Nesting.close? '(' ')' ⟨none, depth⟩ rest).map (prepend text) := by
  have flat : ∀ space : Text, IsSpace space → ∀ c ∈ space, IsFlat c :=
    fun space blank c member => isFlat_of_isPlain (isPlain_of_isBlank (blank c member)).1
  induction rendered generalizing depth rest with
  | @token level term written before after spaceBefore spaceAfter token =>
    rw [List.append_assoc, List.append_assoc, Nesting.close?_flat_append depth (flat _ spaceBefore),
      token.close?_append depth, Nesting.close?_flat_append depth (flat _ spaceAfter),
      map_prepend_prepend, map_prepend_prepend, List.append_assoc]
  | @enclosed level term inner before after spaceBefore spaceAfter rendered ih =>
    have opened : Nesting.step '(' ')' ⟨none, depth⟩ '(' = ⟨none, depth + 1⟩ := rfl
    have closed : Nesting.step '(' ')' ⟨none, depth + 1⟩ ')' = ⟨none, depth⟩ := by
      simp [Nesting.step, isQuote]
    have notOutermost : (⟨none, depth + 1⟩ : Nesting) ≠ ⟨none, 1⟩ := by
      simp only [ne_eq, Nesting.mk.injEq, true_and]
      omega
    have shape : before ++ ('(' :: inner ++ [')']) ++ after ++ rest =
        before ++ '(' :: (inner ++ ')' :: (after ++ rest)) := by simp
    rw [shape, Nesting.close?_flat_append depth (flat _ spaceBefore), Nesting.close?_of_ne (.inl (by decide)), opened,
      ih (by omega), Nesting.close?_of_ne (.inr notOutermost), closed, Nesting.close?_flat_append depth (flat _ spaceAfter)]
    simp only [map_prepend_prepend]
    simp
  | @binary level operator left right leftText rightText binds leftRendered rightRendered leftIh rightIh =>
    have shape : leftText ++ operator.symbol ++ rightText ++ rest =
        leftText ++ (operator.symbol ++ (rightText ++ rest)) := by simp
    rw [shape, leftIh inside, Nesting.close?_flat_append depth (isFlat_of_mem_symbol operator), rightIh inside]
    simp only [map_prepend_prepend]
    simp

end Expression

end ComponentPages
