import ComponentPages.Proofs.Expression.Rendering

/-!
Where a text is split. Every level of the grammar has a scan of its own, and a text is split where the scan of
the loosest level finds an operator. On a rendering that is its outermost operator; in the other direction, an
operand in which no scan finds a looser operator needs no parentheses.
-/
namespace ComponentPages

namespace Expression

/-! ### Literals -/

theorem quoted?_eq_some_iff {text : Text} {value : Value} :
    quoted? text = some value ↔ ∃ quote body, text = quote :: body ++ [quote] ∧ isQuote quote = true ∧
      quote ∉ body ∧ value = .string body := by
  constructor
  · intro found
    unfold quoted? at found
    split at found
    · simp at found
    · next quote rest =>
      split at found
      · simp at found
      · next last inside reversed =>
        split at found
        · next enclosed =>
          simp only [Bool.and_eq_true, beq_iff_eq, Bool.not_eq_true', List.elem_eq_contains,
            List.contains_eq_mem, decide_eq_false_iff_not] at enclosed
          obtain ⟨⟨quotes, rfl⟩, closed⟩ := enclosed
          have shape := congrArg List.reverse reversed
          simp only [List.reverse_reverse, List.reverse_cons] at shape
          refine ⟨last, inside.reverse, by rw [shape]; rfl, quotes, by simpa using closed, ?_⟩
          simpa using found.symm
        · simp at found
  · rintro ⟨quote, body, rfl, quotes, closed, rfl⟩
    simp [quoted?, quotes, closed]

theorem integer?_minus (text : Text) :
    integer? ('-' :: text) = (Text.toNat? (Text.trimLeft text)).map fun n => .int (-(n : Int)) := by
  cases digits : Text.toNat? (Text.trimLeft text) <;> simp [integer?, digits]

theorem integer?_of_ne_minus {text : Text} (unsigned : text.head? ≠ some '-') :
    integer? text = (Text.toNat? (Text.trimLeft text)).map fun n => .int n := by
  unfold integer?
  split
  · simp at unsigned
  · cases digits : Text.toNat? (Text.trimLeft text) <;> simp

/-- On trimmed text, the literals are the tokens that stand for one. -/
theorem literal?_eq_some_iff {text : Text} (trimmed : Text.trimLeft text = text) {value : Value} :
    literal? text = some value ↔ Token (.literal value) text := by
  constructor
  · intro found
    unfold literal? at found
    split at found
    · next same =>
      obtain rfl := Option.some.inj found
      exact same ▸ .truth
    · split at found
      · next same =>
        obtain rfl := Option.some.inj found
        exact same ▸ .falsity
      · rcases Option.or_eq_some_iff.1 found with quoted | ⟨-, number⟩
        · obtain ⟨quote, body, rfl, quotes, closed, rfl⟩ := quoted?_eq_some_iff.1 quoted
          exact .string quotes closed
        · by_cases signed : text.head? = some '-'
          · obtain ⟨rest, rfl⟩ : ∃ rest, text = '-' :: rest := List.head?_eq_some_iff.1 signed
            rw [integer?_minus] at number
            obtain ⟨n, digits, rfl⟩ := Option.map_eq_some_iff.1 number
            obtain ⟨nonempty, decimal, rfl⟩ := Text.toNat?_eq_some_iff.1 digits
            have blank : IsSpace (rest.takeWhile isBlank) := fun c member => List.mem_takeWhile_imp member
            have token := Token.negative blank nonempty decimal
            rwa [List.cons_append, Text.trimLeft, List.takeWhile_append_dropWhile] at token
          · rw [integer?_of_ne_minus signed, trimmed] at number
            obtain ⟨n, digits, rfl⟩ := Option.map_eq_some_iff.1 number
            obtain ⟨nonempty, decimal, rfl⟩ := Text.toNat?_eq_some_iff.1 digits
            exact .natural nonempty decimal
  · intro token
    have number : ∀ value, (∀ c ∈ text.head?, isQuote c = false) → (∀ c ∈ text.head?, isIdentifierStart c = false) →
        integer? text = some value → literal? text = some value := by
      intro value noQuote noLetter found
      have noTruth : text ≠ "true" := by
        rintro rfl
        exact absurd (noLetter 't' rfl) (by decide)
      have noFalsity : text ≠ "false" := by
        rintro rfl
        exact absurd (noLetter 'f' rfl) (by decide)
      have unquoted : quoted? text = none := by
        rw [Option.eq_none_iff_forall_ne_some]
        intro value quoted
        obtain ⟨quote, body, rfl, quotes, -⟩ := quoted?_eq_some_iff.1 quoted
        exact absurd (noQuote quote rfl) (by simp [quotes])
      rw [literal?, if_neg noTruth, if_neg noFalsity, unquoted, Option.none_or, found]
    cases token with
    | truth => rfl
    | falsity => rfl
    | natural nonempty decimal =>
      obtain ⟨c, rest, rfl⟩ := List.exists_cons_of_ne_nil nonempty
      have digit := decimal c List.mem_cons_self
      have plain := isPlain_of_isIdentifierPart (isIdentifierPart_of_isDigit digit)
      have unsigned : (c :: rest).head? ≠ some '-' := by simpa using plain.2
      have read := Text.toNat?_eq_some_iff.2 ⟨nonempty, decimal, rfl⟩
      apply number
      · simpa using isQuote_of_isPlain plain.1
      · simpa using isIdentifierStart_of_isDigit digit
      · rw [integer?_of_ne_minus unsigned, trimmed, read, Option.map_some]
    | @negative space digits blank nonempty decimal =>
      have solid : Text.trimLeft digits = digits := by
        obtain ⟨c, rest, rfl⟩ := List.exists_cons_of_ne_nil nonempty
        have part := isIdentifierPart_of_isDigit (decimal c List.mem_cons_self)
        exact Text.trimLeft_cons_of_not_blank (isBlank_of_isIdentifierPart part) rest
      have read := Text.toNat?_eq_some_iff.2 ⟨nonempty, decimal, rfl⟩
      apply number
      · simp [isQuote]
      · simp [isIdentifierStart, Char.isAlpha, Char.isUpper, Char.isLower]
      · rw [List.cons_append, integer?_minus, Text.trimLeft_append_of_space blank, solid, read, Option.map_some]
    | @string quote body quotes closed =>
      have noTruth : quote :: body ++ [quote] ≠ "true" := by
        intro same
        obtain rfl : quote = 't' := (List.cons.inj same).1
        exact absurd quotes (by decide)
      have noFalsity : quote :: body ++ [quote] ≠ "false" := by
        intro same
        obtain rfl : quote = 'f' := (List.cons.inj same).1
        exact absurd quotes (by decide)
      have quoted := quoted?_eq_some_iff.2 ⟨quote, body, rfl, quotes, closed, rfl⟩
      rw [literal?, if_neg noTruth, if_neg noFalsity, quoted, Option.some_or]

/-! ### The scans of the levels -/

/-- The operators that a backward scan looks for together with a given one. -/
def siblings (operator : Operator) : List Operator :=
  if operator.level = 8 then [.add, .subtract] else [.multiply, .divide, .modulo]

/-- The scan that looks for the operators of one level, given one of them. -/
def scan? (operator : Operator) (text : Text) : Option (Operator × Text × Text) :=
  if operator.level < 8 then
    (splitLeft? operator.symbol {} text).map fun (left, right) => (operator, left, right)
  else splitRight? (siblings operator) {} text.reverse []

theorem scan?_of_rightward {operator : Operator} (rightward : operator.level < 8) (text : Text) :
    scan? operator text = (splitLeft? operator.symbol {} text).map fun (left, right) => (operator, left, right) :=
  if_pos rightward

theorem scan?_of_leftward {operator : Operator} (leftward : ¬operator.level < 8) (text : Text) :
    scan? operator text = splitRight? (siblings operator) {} text.reverse [] :=
  if_neg leftward

theorem isGroup_siblings {operator : Operator} (leftward : ¬operator.level < 8) :
    IsGroup (siblings operator) operator.level := by
  have top : operator.level ≤ 9 := by cases operator <;> decide
  unfold siblings
  split
  · next loose => exact .inl ⟨rfl, loose⟩
  · exact .inr ⟨rfl, by omega⟩

theorem eq_of_level_eq {operator other : Operator} (same : operator.level = other.level)
    (rightward : operator.level < 8) : operator = other := by
  revert same rightward
  cases operator <;> cases other <;> decide

theorem scan?_congr {operator other : Operator} (same : operator.level = other.level) (text : Text) :
    scan? operator text = scan? other text := by
  by_cases rightward : operator.level < 8
  · rw [eq_of_level_eq same rightward]
  · have alike : ¬other.level < 8 := same ▸ rightward
    rw [scan?_of_leftward rightward, scan?_of_leftward alike, siblings, siblings, same]

/-- One operator of each level, the loosest first. -/
def leaders : List Operator := Operator.rightward ++ [.add, .multiply]

theorem split?_eq_findSome? (text : Text) : split? text = leaders.findSome? (scan? · text) := by
  rw [leaders, List.findSome?_append, split?]
  rfl

theorem leaders_pairwise : leaders.Pairwise fun looser tighter => looser.level < tighter.level := by
  decide

theorem exists_leader (operator : Operator) : ∃ leader ∈ leaders, leader.level = operator.level := by
  cases operator <;> decide

theorem operator_of_splitRight? {operators : List Operator} {nesting : Nesting} {backwards passed left right : Text}
    {operator : Operator} (found : splitRight? operators nesting backwards passed = some (operator, left, right)) :
    operator ∈ operators ∧ backwards.reverse ++ passed = left ++ operator.symbol ++ right := by
  induction backwards generalizing nesting passed with
  | nil => simp [splitRight?] at found
  | cons c before ih =>
    unfold splitRight? at found
    split at found
    · next first here =>
      simp only [Option.some.injEq, Prod.mk.injEq] at found
      obtain ⟨rfl, rfl, rfl⟩ := found
      unfold operatorHere? at here
      split at here
      · have symbol : first.symbol = [c] := by simpa using List.find?_some here
        exact ⟨List.mem_of_find?_eq_some here, by simp [symbol]⟩
      · simp at here
    · obtain ⟨member, same⟩ := ih found
      exact ⟨member, by rw [← same]; simp⟩

theorem eq_of_splitLeft? {symbol : Text} {nesting : Nesting} {text left right : Text}
    (found : splitLeft? symbol nesting text = some (left, right)) : text = left ++ symbol ++ right := by
  induction text generalizing nesting left with
  | nil => simp [splitLeft?] at found
  | cons c rest ih =>
    unfold splitLeft? at found
    split at found
    · next here =>
      simp only [Option.some.injEq, Prod.mk.injEq] at found
      obtain ⟨rfl, rfl⟩ := found
      unfold symbolHere? at here
      split at here
      · exact Text.eq_of_after? here
      · simp at here
    · obtain ⟨⟨before, remainder⟩, later, same⟩ := Option.map_eq_some_iff.1 found
      simp only [Prod.mk.injEq] at same
      obtain ⟨rfl, rfl⟩ := same
      simp [ih later]

/-- A scan finds an operator of its level, and the text is the operands around it. -/
theorem eq_of_scan? {operator found : Operator} {text left right : Text}
    (scanned : scan? operator text = some (found, left, right)) :
    found.level = operator.level ∧ text = left ++ found.symbol ++ right := by
  by_cases rightward : operator.level < 8
  · rw [scan?_of_rightward rightward] at scanned
    obtain ⟨⟨before, after⟩, split, same⟩ := Option.map_eq_some_iff.1 scanned
    simp only [Prod.mk.injEq] at same
    obtain ⟨rfl, rfl, rfl⟩ := same
    exact ⟨rfl, eq_of_splitLeft? split⟩
  · rw [scan?_of_leftward rightward] at scanned
    obtain ⟨member, whole⟩ := operator_of_splitRight? scanned
    refine ⟨?_, by simpa using whole⟩
    rcases isGroup_siblings rightward with ⟨operators, level⟩ | ⟨operators, level⟩ <;>
      rw [operators] at member <;> rw [level]
    · have all : ∀ operator ∈ [Operator.add, .subtract], operator.level = 8 := by decide
      exact all found member
    · have all : ∀ operator ∈ [Operator.multiply, .divide, .modulo], operator.level = 9 := by decide
      exact all found member

/-- The text is split where the scan of the loosest level finds an operator. -/
theorem split?_eq_some_iff {text left right : Text} {operator : Operator} :
    split? text = some (operator, left, right) ↔
      scan? operator text = some (operator, left, right) ∧
        ∀ looser : Operator, looser.level < operator.level → scan? looser text = none := by
  rw [split?_eq_findSome?, List.findSome?_eq_some_iff]
  constructor
  · rintro ⟨before, leader, after, whole, scanned, unscanned⟩
    have level := (eq_of_scan? scanned).1
    refine ⟨by rw [scan?_congr level, scanned], ?_⟩
    intro looser below
    obtain ⟨other, member, same⟩ := exists_leader looser
    rw [← scan?_congr same]
    have ordered := leaders_pairwise
    rw [whole] at member ordered
    rcases List.mem_append.1 member with early | late
    · exact unscanned other early
    · rcases List.mem_cons.1 late with rfl | later
      · omega
      · have above := List.rel_of_pairwise_cons (List.pairwise_append.1 ordered).2.1 later
        omega
  · rintro ⟨scanned, unscanned⟩
    obtain ⟨leader, member, same⟩ := exists_leader operator
    obtain ⟨before, after, whole⟩ := List.append_of_mem member
    refine ⟨before, leader, after, whole, by rw [scan?_congr same, scanned], ?_⟩
    intro looser early
    have ordered := leaders_pairwise
    rw [whole] at ordered
    have below := (List.pairwise_append.1 ordered).2.2 looser early leader List.mem_cons_self
    exact unscanned looser (by omega)

theorem split?_eq_none_iff {text : Text} : split? text = none ↔ ∀ operator, scan? operator text = none := by
  rw [split?_eq_findSome?, List.findSome?_eq_none_iff]
  constructor
  · intro unscanned operator
    obtain ⟨leader, member, same⟩ := exists_leader operator
    rw [← scan?_congr same]
    exact unscanned leader member
  · intro unscanned leader _
    exact unscanned leader

/-! ### Scans of renderings -/

theorem Token.scan?_eq_none {term : Term} {written : Text} (token : Token term written) (operator : Operator) :
    scan? operator written = none := by
  by_cases rightward : operator.level < 8
  · have passes := token.splitLeft?_append rightward 0 []
    rw [List.append_nil, splitLeft?, Option.map_none] at passes
    rw [scan?_of_rightward rightward, passes, Option.map_none]
  · have sign : Nesting.isOutside ⟨none, 0⟩ = false ∨ endsOperand [] = false := .inr rfl
    have passes := token.splitRight?_append (siblings operator) sign []
    rwa [List.append_nil, splitRight?, ← scan?_of_leftward rightward] at passes

theorem Rendered.scan?_eq_none {level : Nat} {term : Term} {text : Text} (rendered : Rendered level term text)
    {operator : Operator} (looser : operator.level < level) : scan? operator text = none := by
  have hidden : (0 : Int) < 0 ∨ (0 : Int) = 0 ∧ operator.level < level := .inr ⟨rfl, looser⟩
  by_cases rightward : operator.level < 8
  · have passes := rendered.splitLeft?_append rightward hidden []
    rw [List.append_nil, splitLeft?, Option.map_none] at passes
    rw [scan?_of_rightward rightward, passes, Option.map_none]
  · have sign : (0 : Int) < 0 ∨ endsOperand [] = false := .inr rfl
    have passes := rendered.splitRight?_append (isGroup_siblings rightward) hidden sign []
    rwa [List.append_nil, splitRight?, ← scan?_of_leftward rightward] at passes

theorem splitLeft?_symbol (operator : Operator) (rest : Text) :
    splitLeft? operator.symbol {} (operator.symbol ++ rest) = some ([], rest) := by
  have here := Text.after?_append operator.symbol rest
  cases operator <;> simp_all [Operator.symbol, splitLeft?, symbolHere?, Nesting.isOutside, isQuote]

/-- The scan for the outermost operator of a rendering finds it between its two operands. -/
theorem scan?_binary {operator : Operator} {left right : Term} {leftText rightText : Text}
    (leftRendered : Rendered operator.leftLevel left leftText)
    (rightRendered : Rendered operator.rightLevel right rightText) :
    scan? operator (leftText ++ operator.symbol ++ rightText) = some (operator, leftText, rightText) := by
  by_cases rightward : operator.level < 8
  · have tighter : operator.leftLevel = operator.level + 1 := if_pos rightward
    have hidden : (0 : Int) < 0 ∨ (0 : Int) = 0 ∧ operator.level < operator.leftLevel := .inr ⟨rfl, by omega⟩
    rw [scan?_of_rightward rightward, List.append_assoc, leftRendered.splitLeft?_append rightward hidden,
      splitLeft?_symbol]
    simp [prepend]
  · have tighter : operator.rightLevel = operator.level + 1 := if_neg rightward
    have shape : (leftText ++ operator.symbol ++ rightText).reverse =
        rightText.reverse ++ (operator.symbol.reverse ++ leftText.reverse) := by simp
    have operand := leftRendered.endsOperand_reverse
    have hidden : (0 : Int) < 0 ∨ (0 : Int) = 0 ∧ operator.level < operator.rightLevel := .inr ⟨rfl, by omega⟩
    rw [scan?_of_leftward rightward, shape, rightRendered.splitRight?_append (isGroup_siblings rightward) hidden
      (.inr (endsOperand_symbol_append operator _))]
    cases operator <;> simp only [Operator.level] at rightward <;>
      first
      | omega
      | simp [Operator.symbol, siblings, Operator.level, splitRight?, operatorHere?, Nesting.isOutside, operand]

/-! ### From scans to renderings -/

/-- A rendering in which no looser operator is found needs no parentheses at the tighter level. -/
theorem Rendered.lift {level higher : Nat} {term : Term} {text : Text} (rendered : Rendered level term text)
    (unscanned : ∀ operator : Operator, operator.level < higher → scan? operator text = none) :
    Rendered higher term text := by
  cases rendered with
  | token spaceBefore spaceAfter token => exact .token spaceBefore spaceAfter token
  | enclosed spaceBefore spaceAfter rendered => exact .enclosed spaceBefore spaceAfter rendered
  | @binary _ operator left right leftText rightText binds leftRendered rightRendered =>
    by_cases below : operator.level < higher
    · have none := unscanned operator below
      rw [scan?_binary leftRendered rightRendered] at none
      simp at none
    · exact .binary (Nat.le_of_not_lt below) leftRendered rightRendered

theorem symbolHere?_append_of_some {symbol : Text} {nesting : Nesting} {c : Char} {rest after : Text}
    (found : symbolHere? symbol nesting c rest = some after) (more : Text) :
    symbolHere? symbol nesting c (rest ++ more) = some (after ++ more) := by
  unfold symbolHere? at *
  split at found
  · next outside =>
    rw [if_pos outside]
    exact Text.after?_append_of_some found more
  · simp at found

theorem symbolHere?_append_of_none {symbol : Text} {nesting : Nesting} {c : Char} {rest : Text}
    (none : symbolHere? symbol nesting c rest = none) (long : symbol.length ≤ rest.length) (more : Text) :
    symbolHere? symbol nesting c (rest ++ more) = .none := by
  rw [Option.eq_none_iff_forall_ne_some]
  intro after found
  unfold symbolHere? at *
  split at found
  · next outside =>
    rw [if_pos outside] at none
    have found' : Text.after? symbol ((c :: rest) ++ more) = some after := found
    obtain ⟨shorter, here⟩ := Text.exists_after?_of_append found' (Nat.le_succ_of_le long)
    rw [here] at none
    simp at none
  · simp at found

/-- A forward scan that finds a symbol finds it also with more text behind. -/
theorem splitLeft?_append_of_some {symbol : Text} {nesting : Nesting} {text left right : Text}
    (found : splitLeft? symbol nesting text = some (left, right)) (more : Text) :
    splitLeft? symbol nesting (text ++ more) = some (left, right ++ more) := by
  induction text generalizing nesting left with
  | nil => simp [splitLeft?] at found
  | cons c rest ih =>
    rw [List.cons_append]
    cases here : symbolHere? symbol nesting c rest with
    | some after =>
      rw [splitLeft?, here] at found
      simp only [Option.some.injEq, Prod.mk.injEq] at found
      obtain ⟨rfl, rfl⟩ := found
      rw [splitLeft?, symbolHere?_append_of_some here]
    | none =>
      rw [splitLeft?_of_none here] at found
      obtain ⟨⟨before, after⟩, later, same⟩ := Option.map_eq_some_iff.1 found
      have size := length_of_splitLeft? later
      simp only [prepend, Prod.map, id, Prod.mk.injEq] at same
      obtain ⟨rfl, rfl⟩ := same
      rw [splitLeft?_of_none (symbolHere?_append_of_none here (by omega) more), ih later]
      rfl

theorem endsOperand_append {backwards : Text} (solid : Text.trimLeft backwards ≠ []) (more : Text) :
    endsOperand (backwards ++ more) = endsOperand backwards := by
  unfold endsOperand
  rw [Text.trimLeft_append solid]
  cases start : Text.trimLeft backwards with
  | nil => exact absurd start solid
  | cons c rest => rfl

theorem trimLeft_cons_ne_nil {text : Text} (solid : Text.trimLeft text ≠ []) (c : Char) :
    Text.trimLeft (c :: text) ≠ [] := by
  by_cases blank : isBlank c = true
  · rwa [Text.trimLeft, List.dropWhile_cons_of_pos blank]
  · rw [Text.trimLeft_cons_of_not_blank (by simpa using blank)]
    exact List.cons_ne_nil c text

theorem solid_of_splitRight? {operators : List Operator} {nesting : Nesting} {backwards passed left right : Text}
    {operator : Operator} (found : splitRight? operators nesting backwards passed = some (operator, left, right)) :
    Text.trimLeft backwards ≠ [] := by
  induction backwards generalizing nesting passed with
  | nil => simp [splitRight?] at found
  | cons c before ih =>
    apply trimLeft_cons_ne_nil
    cases here : operatorHere? operators nesting c before with
    | some first =>
      unfold operatorHere? at here
      split at here
      · next outside =>
        intro empty
        simp [endsOperand, empty] at outside
      · simp at here
    | none =>
      rw [splitRight?_of_none here] at found
      exact ih found

/-- A backward scan that finds an operator finds it also with more text in front. -/
theorem splitRight?_append_of_some {operators : List Operator} {nesting : Nesting}
    {backwards passed left right : Text} {operator : Operator}
    (found : splitRight? operators nesting backwards passed = some (operator, left, right)) (more : Text) :
    splitRight? operators nesting (backwards ++ more) passed = some (operator, more.reverse ++ left, right) := by
  induction backwards generalizing nesting passed with
  | nil => simp [splitRight?] at found
  | cons c before ih =>
    rw [List.cons_append]
    cases here : operatorHere? operators nesting c before with
    | some first =>
      rw [splitRight?, here] at found
      simp only [Option.some.injEq, Prod.mk.injEq] at found
      obtain ⟨rfl, rfl, rfl⟩ := found
      have solid : Text.trimLeft before ≠ [] := by
        intro empty
        simp [operatorHere?, endsOperand, empty] at here
      have still : operatorHere? operators nesting c (before ++ more) = some first := by
        rw [operatorHere?, endsOperand_append solid, ← operatorHere?, here]
      rw [splitRight?, still]
      simp
    | none =>
      rw [splitRight?_of_none here] at found
      have still : operatorHere? operators nesting c (before ++ more) = none := by
        rw [operatorHere?, endsOperand_append (solid_of_splitRight? found), ← operatorHere?, here]
      rw [splitRight?_of_none still, ih found]

/-- Whether a backward scan finds something does not depend on what it passed before. -/
theorem splitRight?_eq_none_of_passed {operators : List Operator} {nesting : Nesting} {backwards passed : Text}
    (none : splitRight? operators nesting backwards passed = none) (other : Text) :
    splitRight? operators nesting backwards other = .none := by
  induction backwards generalizing nesting passed other with
  | nil => rfl
  | cons c before ih =>
    rw [splitRight?] at *
    split at none
    · simp at none
    · exact ih none _

/-- No operator that would need parentheses in the left operand is found there, as far as the forward scans go. -/
theorem scan?_left_eq_none {text left right : Text} {operator looser : Operator}
    (found : split? text = some (operator, left, right)) (rightward : looser.level < 8)
    (below : looser.level < operator.leftLevel) : scan? looser left = none := by
  obtain ⟨scanned, unscanned⟩ := split?_eq_some_iff.1 found
  have whole := (eq_of_scan? scanned).2
  rw [Option.eq_none_iff_forall_ne_some]
  rintro ⟨other, start, rest⟩ inLeft
  have part := (eq_of_scan? inLeft).2
  rw [scan?_of_rightward rightward] at inLeft
  obtain ⟨⟨before, after⟩, split, same⟩ := Option.map_eq_some_iff.1 inLeft
  simp only [Prod.mk.injEq] at same
  obtain ⟨rfl, rfl, rfl⟩ := same
  have longer := splitLeft?_append_of_some split (operator.symbol ++ right)
  rw [← List.append_assoc, ← whole] at longer
  have inText : scan? looser text = some (looser, before, after ++ (operator.symbol ++ right)) := by
    rw [scan?_of_rightward rightward, longer, Option.map_some]
  by_cases strictly : looser.level < operator.level
  · rw [unscanned looser strictly] at inText
    simp at inText
  · have same : operator.level = looser.level := by
      unfold Operator.leftLevel at below
      split at below <;> omega
    rw [← scan?_congr same, scanned] at inText
    simp only [Option.some.injEq, Prod.mk.injEq] at inText
    have sizes := congrArg List.length part
    have nonempty : 0 < looser.symbol.length := by cases looser <;> decide
    rw [inText.2.1] at sizes
    simp only [List.length_append] at sizes
    omega

theorem scan?_right_eq_none {text left right : Text} {operator looser : Operator} {leftTerm rightTerm : Term}
    (found : split? text = some (operator, left, right))
    (leftRendered : Rendered (min 8 operator.leftLevel) leftTerm left) (rightRendered : Rendered 0 rightTerm right)
    (below : looser.level < operator.rightLevel) : scan? looser right = none := by
  obtain ⟨scanned, unscanned⟩ := split?_eq_some_iff.1 found
  have whole := (eq_of_scan? scanned).2
  have toRight : operator.rightLevel = if operator.level < 8 then operator.level else operator.level + 1 := rfl
  have toLeft := operator.level_le_leftLevel
  by_cases rightward : looser.level < 8
  · have strictly : looser.level < operator.level := by split at toRight <;> omega
    have none := unscanned looser strictly
    obtain ⟨c, rest, begins, different⟩ := rightRendered.first
    have hidden : (0 : Int) < 0 ∨ (0 : Int) = 0 ∧ looser.level < min 8 operator.leftLevel := .inr ⟨rfl, by omega⟩
    rw [scan?_of_rightward rightward, Option.map_eq_none_iff, whole, List.append_assoc,
      leftRendered.splitLeft?_append rightward hidden, Option.map_eq_none_iff, begins,
      splitLeft?_symbol_append rightward (.inr ⟨rfl, strictly⟩) different, Option.map_eq_none_iff, ← begins] at none
    rw [scan?_of_rightward rightward, none, Option.map_none]
  · rw [Option.eq_none_iff_forall_ne_some]
    rintro ⟨other, start, rest⟩ inRight
    rw [scan?_of_leftward rightward] at inRight
    have longer := splitRight?_append_of_some inRight (operator.symbol.reverse ++ left.reverse)
    have backwards : right.reverse ++ (operator.symbol.reverse ++ left.reverse) = text.reverse := by simp [whole]
    have inText : scan? looser text = some (other, left ++ operator.symbol ++ start, rest) := by
      rw [scan?_of_leftward rightward, ← backwards, longer]
      simp
    by_cases strictly : looser.level < operator.level
    · rw [unscanned looser strictly] at inText
      simp at inText
    · have same : operator.level = looser.level := by split at toRight <;> omega
      rw [← scan?_congr same, scanned] at inText
      simp only [Option.some.injEq, Prod.mk.injEq] at inText
      have sizes := congrArg List.length inText.2.1
      have nonempty : 0 < operator.symbol.length := by cases operator <;> decide
      simp only [List.length_append] at sizes
      omega

/-- The operands of a text that is split render their terms without parentheses. -/
theorem rendered_of_split? {text left right : Text} {operator : Operator} {leftTerm rightTerm : Term}
    (found : split? text = some (operator, left, right)) (leftRendered : Rendered 0 leftTerm left)
    (rightRendered : Rendered 0 rightTerm right) : Rendered 0 (.binary operator leftTerm rightTerm) text := by
  obtain ⟨scanned, unscanned⟩ := split?_eq_some_iff.1 found
  have whole := (eq_of_scan? scanned).2
  have toLeft : operator.leftLevel = if operator.level < 8 then operator.level + 1 else operator.level := rfl
  have toRight := operator.level_le_rightLevel
  have leftLoose : Rendered (min 8 operator.leftLevel) leftTerm left :=
    leftRendered.lift fun looser below => scan?_left_eq_none found (by omega) (by omega)
  have rightTight : Rendered operator.rightLevel rightTerm right :=
    rightRendered.lift fun looser below => scan?_right_eq_none found leftLoose rightRendered below
  have leftTight : Rendered operator.leftLevel leftTerm left := by
    apply leftRendered.lift
    intro looser below
    by_cases rightward : looser.level < 8
    · exact scan?_left_eq_none found rightward below
    · -- Among the products, sums are looked for: the backward scan reads the right operand first.
      have strictly : looser.level < operator.level := by split at toLeft <;> omega
      have none := unscanned looser strictly
      have shape : text.reverse = right.reverse ++ (operator.symbol.reverse ++ left.reverse) := by simp [whole]
      have hidden : (0 : Int) < 0 ∨ (0 : Int) = 0 ∧ looser.level < operator.rightLevel := .inr ⟨rfl, by omega⟩
      rw [scan?_of_leftward rightward, shape, rightTight.splitRight?_append (isGroup_siblings rightward) hidden
        (.inr (endsOperand_symbol_append operator _)),
        splitRight?_symbol_append (isGroup_siblings rightward) (.inr ⟨rfl, strictly⟩)] at none
      rw [scan?_of_leftward rightward]
      exact splitRight?_eq_none_of_passed none []
  rw [whole]
  exact .binary (Nat.zero_le _) leftTight rightTight

end Expression

end ComponentPages
