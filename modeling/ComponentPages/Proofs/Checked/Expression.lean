import ComponentPages.Proofs.Checked.Attribute
import ComponentPages.Proofs.Expression.Reading

/-!
Expressions, evaluated with checked operations. An operator is sought from the left or from the right, and the text is
split at the index where it stands; the character there, the first and the last character of the text and the value of a
name are read off at places that only the search before makes good ones. Operands are evaluated as they are cut out, so
each of them must be shorter than the text.
-/
namespace ComponentPages

/-- The operator that a sign stands for; any other character counts as the remainder. -/
def Operator.ofSign (c : Char) : Operator :=
  if c = '+' then .add else if c = '-' then .subtract else if c = '*' then .multiply else if c = '/' then .divide
  else .modulo

theorem Operator.ofSign_of_mem {group : List Operator} (listed : group ∈ leftward) {operator : Operator}
    (member : operator ∈ group) {c : Char} (sign : operator.symbol = [c]) : ofSign c = operator := by
  have every : ∀ group ∈ leftward, ∀ operator ∈ group, operator.symbol.map ofSign = [operator] := by decide
  have same := every group listed operator member
  rw [sign, List.map_singleton] at same
  exact List.singleton_inj.1 same

/-- A text that is no literal and neither split nor enclosed is a name, or no expression. -/
theorem Expression.read_of_bare {written : Text} (nonempty : Text.trim written ≠ [])
    (noLiteral : literal? (Text.trim written) = none) (noSplit : split? (Text.trim written) = none)
    (open_ : enclosed? (Text.trim written) = none) :
    read written = if Text.isIdentifier (Text.trim written) then .variable (Text.trim written)
      else .invalid (.invalidExpression (Text.trim written)) := by
  rw [read, if_neg nonempty, noLiteral]
  dsimp only
  split
  · next same =>
    rw [noSplit] at same
    cases same
  · split
    · next same =>
      rw [open_] at same
      cases same
    · rfl

namespace Checked

open Guarded (embed check)

/-- One character of the search for an operator from the left. -/
def symbolTurn (symbol text : Text) (nesting : Nesting) (index : Nat) (c : Char) : Turn Nesting (Option Nat) :=
  if nesting.isOutside && !isQuote c && c != '(' && c != ')' && Text.startsWith symbol (text.drop index) then
    .stop (some index)
  else .next (nesting.step '(' ')' c)

/-- Where a symbol stands first outside quotations and parentheses. -/
def symbolIndex (symbol text : Text) : Checked (Option Nat) := each text (symbolTurn symbol text) (fun _ _ => none) {} 0

/-- Whether a text, which may be empty, ends in an operand. -/
def endsOperand (left : Text) : Checked Bool :=
  if left = [] then .ok false else (last left).map fun c => !Expression.isOperatorChar c

/-- One character of the search for an operator from the right. A sign that no operand precedes is passed over. -/
def signTurn (operators : List Operator) (text : Text) (nesting : Nesting) (index : Nat) (c : Char) :
    Checked (Turn Nesting (Option Nat)) :=
  if nesting.isOutside && operators.any fun operator => operator.symbol = [c] then do
    if ← endsOperand (Text.trimRight (text.take index)) then .ok (.stop (some index))
    else .ok (.next (nesting.step ')' '(' c))
  else .ok (.next (nesting.step ')' '(' c))

/-- Where one of several signs stands last as an operator. -/
def signIndex (operators : List Operator) (text : Text) : Checked (Option Nat) :=
  backward text (signTurn operators text) (fun _ => none) {} text.length

def splitAtSymbol (text : Text) (operator : Operator) : Checked (Option (Operator × Nat)) :=
  (symbolIndex operator.symbol text).map fun index? => index?.map fun index => (operator, index)

def splitAtSign (text : Text) (operators : List Operator) : Checked (Option (Operator × Nat)) := do
  match ← signIndex operators text with
  | none => .ok none
  | some index => (charAt text index).map fun c => some (Operator.ofSign c, index)

/-- The loosest operator of a text and where it stands. -/
def splitAt (text : Text) : Checked (Option (Operator × Nat)) := do
  match ← findFirst (splitAtSymbol text) Operator.rightward with
  | some found => .ok (some found)
  | none => findFirst (splitAtSign text) Operator.leftward

/-- A quotation that is the whole text. -/
def quotation (text : Text) : Checked (Option Value) := do
  let quote ← charAt text 0
  if 2 ≤ text.length ∧ isQuote quote then
    let inside := Text.slice text 1 (text.length - 1)
    if (← last text) == quote && !inside.elem quote then .ok (some (.string inside)) else .ok none
  else .ok none

/-- An integer: whether it has a minus sign, and the number that its digits write. -/
def integer (text : Text) : Checked (Option Value) :=
  let negative := text.head? == some '-'
  let digits := Text.trimLeft (if negative then text.drop 1 else text)
  if digits.isEmpty || !digits.all Char.isDigit then .ok none
  else (number digits).map fun (n : Nat) => some (.int (if negative then -(n : Int) else n))

def literal (text : Text) : Checked (Option Value) :=
  if text = "true" then .ok (some (.boolean true))
  else if text = "false" then .ok (some (.boolean false))
  else do
    match ← quotation text with
    | some value => .ok (some value)
    | none => integer text

/-- What stands between the parentheses that enclose a whole text. -/
def enclosed (text : Text) : Checked (Option Text) := do
  if (← charAt text 0) = '(' then
    let close ← matchingBracket '(' ')' text 0
    if close = some (text.length - 1) then .ok (some (Text.slice text 1 (text.length - 1))) else .ok none
  else .ok none

/-- A name's value. That it has none is noticed by the lookup that fails. -/
def valueOf (name : Text) (scope : Scope) : Guarded (Except Failure) Value :=
  match lookup name scope with
  | .ok value => pure value
  | .error _ => embed (.error (.undefinedVariable name))

/-- Applies an operator to two values. -/
def combine (operator : Operator) (left right : Value) (source : Text) : Guarded (Except Failure) Value :=
  match operator, left, right with
  | .divide, .int left, .int right =>
    if right = 0 then embed (.error (.divisionByZero source)) else do
      let number ← check (quotient left right)
      pure (.int number)
  | .modulo, .int left, .int right =>
    if right = 0 then embed (.error (.moduloByZero source)) else do
      let number ← check (quotient left right)
      pure (.int (left - right * number))
  | operator, left, right => embed (left.combine operator right source)

/-- The value of a written expression. -/
def evaluate (written : Text) (scope : Scope) : Guarded (Except Failure) Value := do
  let text := Text.trim written
  if text = [] then embed (.error (.emptyExpression written))
  else
    match ← check (literal text) with
    | some value => pure value
    | none =>
      match ← check (splitAt text) with
      | some (operator, index) =>
        if _shorter : (text.take index).length < written.length ∧
            (text.drop (index + operator.symbol.length)).length < written.length then do
          let left ← evaluate (text.take index) scope
          let right ← evaluate (text.drop (index + operator.symbol.length)) scope
          combine operator left right text
        else check (.error .endless)
      | none =>
        match ← check (enclosed text) with
        | some inside =>
          if _shorter : inside.length < written.length then evaluate inside scope else check (.error .endless)
        | none =>
          if Text.isIdentifier text then valueOf text scope else embed (.error (.invalidExpression text))
termination_by written.length
decreasing_by
  · exact _shorter.1
  · exact _shorter.2
  · exact _shorter

theorem symbolIndex_eq (symbol text : Text) :
    symbolIndex symbol text = .ok ((Expression.splitLeft? symbol {} text).map fun found => found.1.length) := by
  have whole : symbolIndex symbol text = .ok ((Expression.splitLeft? symbol {} (text.drop 0)).map fun found =>
      0 + found.1.length) := by
    refine each_eq (fun nesting index rest => (Expression.splitLeft? symbol nesting rest).map
      fun (found : Text × Text) => index + found.1.length) (fun _ _ => rfl) (fun nesting index c rest stands => ?_) {} 0
    rw [Expression.splitLeft?, Expression.symbolHere?, symbolTurn, stands, Text.startsWith]
    have passed : ((Expression.splitLeft? symbol (nesting.step '(' ')' c) rest).map
        fun found => (c :: found.1, found.2)).map (fun (found : Text × Text) => index + found.1.length) =
        (Expression.splitLeft? symbol (nesting.step '(' ')' c) rest).map fun found => index + 1 + found.1.length :=
      place_cons index c _
    by_cases free : (nesting.isOutside && !isQuote c && c != '(' && c != ')') = true
    · rw [if_pos free, free, Bool.true_and]
      cases Text.after? symbol (c :: rest) with
      | none => exact passed
      | some right => rfl
    · rw [if_neg free, Bool.eq_false_iff.2 free, Bool.false_and]
      exact passed
  simpa using whole

/-- Where a text is split from the right does not depend on what was passed before. -/
theorem splitRight?_passed (operators : List Operator) (nesting : Nesting) (backwards passed other : Text) :
    (Expression.splitRight? operators nesting backwards passed).map (fun found => (found.1, found.2.1)) =
      (Expression.splitRight? operators nesting backwards other).map fun found => (found.1, found.2.1) := by
  induction backwards generalizing nesting passed other with
  | nil => rfl
  | cons c before ih =>
    rw [Expression.splitRight?, Expression.splitRight?]
    cases Expression.operatorHere? operators nesting c before with
    | some operator => rfl
    | none => exact ih _ _ _

theorem endsOperand_eq (text : Text) : endsOperand (Text.trimRight text) = .ok (Expression.endsOperand text.reverse) := by
  have trimmed : Text.trimRight text = (Text.trimLeft text.reverse).reverse := rfl
  rw [endsOperand, Expression.endsOperand, trimmed]
  cases Text.trimLeft text.reverse with
  | nil => rfl
  | cons c before => rw [if_neg (by simp), last, List.getLast?_reverse, List.head?_cons, require, map_ok]

theorem signIndex_eq (operators : List Operator) (text : Text) :
    signIndex operators text =
      .ok ((Expression.splitRight? operators {} text.reverse []).map fun found => found.2.1.length) := by
  have whole : signIndex operators text = .ok ((Expression.splitRight? operators {} (text.take text.length).reverse []).map
      fun found => found.2.1.length) := by
    refine backward_eq (fun nesting backwards => (Expression.splitRight? operators nesting backwards []).map
      fun (found : Operator × Text × Text) => found.2.1.length) (fun _ => rfl) (fun nesting index c here => ?_) {}
      (Nat.le_refl _)
    have size : (text.take index).length = index := by
      rw [List.length_take]
      have := (List.getElem?_eq_some_iff.1 here).1
      omega
    have passed : ((Expression.splitRight? operators (nesting.step ')' '(' c) (text.take index).reverse [c]).map
        fun (found : Operator × Text × Text) => found.2.1.length) =
        (Expression.splitRight? operators (nesting.step ')' '(' c) (text.take index).reverse []).map
          fun found => found.2.1.length := by
      have same := congrArg (Option.map fun (found : Operator × Text) => found.2.length)
        (splitRight?_passed operators (nesting.step ')' '(' c) (text.take index).reverse [c] [])
      rwa [Option.map_map, Option.map_map] at same
    have any : (operators.any fun operator => operator.symbol = [c]) =
        (operators.find? fun operator => operator.symbol = [c]).isSome := by
      rw [Bool.eq_iff_iff, List.any_eq_true, List.find?_isSome]
    rw [Expression.splitRight?, Expression.operatorHere?, signTurn, any, endsOperand_eq]
    by_cases outside : nesting.isOutside = true
    · rw [outside, Bool.true_and, Bool.true_and]
      cases operators.find? fun operator => operator.symbol = [c] with
      | none => exact ⟨_, if_neg Bool.false_ne_true, by rw [ite_self]; exact passed⟩
      | some operator =>
        rw [Option.isSome_some, if_pos rfl, ok_bind]
        by_cases operand : Expression.endsOperand (text.take index).reverse
        · rw [if_pos operand, if_pos operand]
          exact ⟨_, rfl, by rw [Option.map_some, List.reverse_reverse, size, Turn.result]⟩
        · rw [if_neg operand, if_neg operand]
          exact ⟨_, rfl, passed⟩
    · rw [Bool.eq_false_iff.2 outside, Bool.false_and, Bool.false_and]
      exact ⟨_, if_neg Bool.false_ne_true, by rw [if_neg Bool.false_ne_true]; exact passed⟩
  rwa [List.take_length] at whole

theorem splitAtSymbol_eq (text : Text) (operator : Operator) :
    splitAtSymbol text operator = .ok (((Expression.splitLeft? operator.symbol {} text).map
      fun (left, right) => (operator, left, right)).map fun found => (found.1, found.2.1.length)) := by
  rw [splitAtSymbol, symbolIndex_eq, map_ok, Option.map_map, Option.map_map]
  rfl

theorem splitAtSign_eq (text : Text) {operators : List Operator} (listed : operators ∈ Operator.leftward) :
    splitAtSign text operators = .ok ((Expression.splitRight? operators {} text.reverse []).map
      fun found => (found.1, found.2.1.length)) := by
  rw [splitAtSign, signIndex_eq, ok_bind]
  cases found : Expression.splitRight? operators {} text.reverse [] with
  | none => rfl
  | some parts =>
    obtain ⟨operator, left, right⟩ := parts
    obtain ⟨member, whole⟩ := Expression.operator_of_splitRight? found
    rw [List.reverse_reverse, List.append_nil] at whole
    obtain ⟨c, sign⟩ : ∃ c, operator.symbol = [c] := by
      have every : ∀ group ∈ Operator.leftward, ∀ operator ∈ group, operator.symbol.length = 1 := by decide
      exact List.length_eq_one_iff.1 (every operators listed operator member)
    have stands : text.drop left.length = c :: right := by rw [whole, sign, List.append_assoc, List.drop_left]; rfl
    rw [Option.map_some]
    dsimp only
    rw [charAt_of_drop stands, map_ok, Operator.ofSign_of_mem listed member sign]
    rfl

theorem splitAt_eq (text : Text) :
    splitAt text = .ok ((Expression.split? text).map fun found => (found.1, found.2.1.length)) := by
  rw [splitAt, findFirst_eq (fun operator _ => splitAtSymbol_eq text operator), ok_bind,
    findFirst_eq (fun operators listed => splitAtSign_eq text listed), Expression.split?, Option.map_or, List.map_findSome?,
    List.map_findSome?]
  have either (first second : Option (Operator × Nat)) : (match first with
      | some found => .ok (some found)
      | none => .ok second : Checked (Option (Operator × Nat))) = .ok (first.or second) := by
    cases first <;> rfl
  exact either _ _

theorem quotation_eq {text : Text} (nonempty : text ≠ []) : quotation text = .ok (Expression.quoted? text) := by
  obtain ⟨quote, rest, rfl⟩ := List.exists_cons_of_ne_nil nonempty
  rw [quotation, charAt_of_drop List.drop_zero, ok_bind, Expression.quoted?]
  cases reversed : rest.reverse with
  | nil =>
    rw [List.reverse_eq_nil_iff.1 reversed]
    rfl
  | cons d inside =>
    obtain rfl : rest = inside.reverse ++ [d] := by rw [← List.reverse_cons, ← reversed, List.reverse_reverse]
    have size : (quote :: (inside.reverse ++ [d])).length - 1 = inside.length + 1 := by simp
    have between : Text.slice (quote :: (inside.reverse ++ [d])) 1 (inside.length + 1) = inside.reverse := by
      have stands : (quote :: (inside.reverse ++ [d])).drop 1 = inside.reverse ++ [d] := rfl
      have sliced := Text.slice_of_drop stands
      rwa [List.length_reverse, Nat.add_comm] at sliced
    have ends : last (quote :: (inside.reverse ++ [d])) = .ok d := by
      rw [last, ← List.cons_append, List.getLast?_concat, require]
    have long : 2 ≤ (quote :: (inside.reverse ++ [d])).length := by simp
    have elem : inside.reverse.elem quote = inside.elem quote := by
      rw [Bool.eq_iff_iff, List.elem_iff, List.elem_iff, List.mem_reverse]
    rw [size, between, ends, ok_bind, elem]
    by_cases quoted : isQuote quote = true
    · dsimp only
      rw [if_pos ⟨long, quoted⟩, quoted, Bool.true_and]
      split <;> rfl
    · dsimp only
      rw [if_neg (fun both => quoted both.2), Bool.eq_false_iff.2 quoted, Bool.false_and, Bool.false_and]
      rfl

theorem integer_eq (text : Text) : integer text = .ok (Expression.integer? text) := by
  have read (digits : Text) (value : Nat → Value) : (if digits.isEmpty || !digits.all Char.isDigit then .ok none
      else (number digits).map fun n => some (value n) : Checked (Option Value)) = .ok ((Text.toNat? digits).map value) := by
    rw [number, Text.toNat?]
    split <;> rfl
  rw [integer]
  by_cases signed : text.head? = some '-'
  · obtain ⟨digits, rfl⟩ := List.head?_eq_some_iff.1 signed
    rw [Expression.integer?_minus]
    exact read _ fun n => .int (-n)
  · rw [Expression.integer?_of_ne_minus signed, beq_eq_false_iff_ne.2 signed]
    exact read _ fun n => .int n

theorem literal_eq {text : Text} (nonempty : text ≠ []) : literal text = .ok (Expression.literal? text) := by
  rw [literal, Expression.literal?]
  split
  · rfl
  · split
    · rfl
    · rw [quotation_eq nonempty, ok_bind]
      cases Expression.quoted? text with
      | some value => rfl
      | none => exact integer_eq text

theorem enclosed_eq {text : Text} (nonempty : text ≠ []) : enclosed text = .ok (Expression.enclosed? text) := by
  obtain ⟨c, rest, rfl⟩ := List.exists_cons_of_ne_nil nonempty
  rw [enclosed, charAt_of_drop List.drop_zero, ok_bind]
  by_cases opens : c = '('
  · subst opens
    rw [if_pos rfl, @matchingBracket_eq '(' ')' (by decide) ('(' :: rest) rest 0 List.drop_zero, ok_bind, Expression.enclosed?]
    cases closed : Nesting.close? '(' ')' ⟨none, 1⟩ rest with
    | none => rfl
    | some parts =>
      obtain ⟨inside, after⟩ := parts
      obtain rfl := Nesting.eq_of_close? closed
      have between : Text.slice ('(' :: (inside ++ ')' :: after)) 1 (1 + inside.length) = inside :=
        Text.slice_of_drop rfl
      rw [Option.map_some]
      dsimp only
      cases after with
      | nil =>
        have same : ('(' :: (inside ++ [')'])).length - 1 = 1 + inside.length := by simp; omega
        rw [same, Nat.zero_add, if_pos rfl, between]
      | cons c after =>
        rw [if_neg]
        simp
        omega
  · rw [if_neg opens]
    unfold Expression.enclosed?
    split
    · next same => cases same; exact absurd rfl opens
    · rfl

theorem valueOf_eq (name : Text) (scope : Scope) :
    valueOf name scope = embed ((Expression.variable name).eval scope) := by
  rw [valueOf, lookup, Expression.eval]
  cases scope.lookup name <;> rfl

theorem combine_eq (operator : Operator) (left right : Value) (source : Text) :
    combine operator left right source = embed (left.combine operator right source) := by
  have divided (left right : Int) (nonzero : right ≠ 0) : (check (quotient left right) : Guarded (Except Failure) Int) =
      pure (left.tdiv right) := Guarded.check_ok (quotient_of_ne nonzero)
  unfold combine
  split
  · next left right =>
    rw [Value.combine, Value.arithmetic]
    by_cases zero : right = 0
    · rw [if_pos zero, if_pos zero]
    · rw [if_neg zero, if_neg zero, divided left right zero]
      rfl
  · next left right =>
    rw [Value.combine, Value.arithmetic]
    by_cases zero : right = 0
    · rw [if_pos zero, if_pos zero]
    · rw [if_neg zero, if_neg zero, divided left right zero, Int.tmod_def]
      rfl
  · rfl

theorem evaluate_eq (written : Text) (scope : Scope) :
    evaluate written scope = embed (Expression.evaluate written scope) := by
  have trimmed := Text.length_trim_le written
  have unfolded : Expression.evaluate written scope = (Expression.read written).eval scope := rfl
  rw [evaluate, unfolded]
  by_cases empty : Text.trim written = []
  · rw [if_pos empty, Expression.read, if_pos empty]
    rfl
  rw [if_neg empty, Guarded.check_ok (literal_eq empty), pure_bind]
  cases literal : Expression.literal? (Text.trim written) with
  | some value =>
    rw [Expression.read_of_literal empty literal]
    rfl
  | none =>
    dsimp only
    rw [Guarded.check_ok (splitAt_eq _), pure_bind]
    cases found : Expression.split? (Text.trim written) with
    | some parts =>
      obtain ⟨operator, left, right⟩ := parts
      have whole := (Expression.eq_of_scan? (Expression.split?_eq_some_iff.1 found).1).2
      have shorter := Expression.length_of_split? found
      have leftCut : (Text.trim written).take left.length = left := by rw [whole, List.append_assoc, List.take_left]
      have rightCut : (Text.trim written).drop (left.length + operator.symbol.length) = right := by
        rw [whole, ← List.length_append, List.drop_left]
      rw [Option.map_some]
      dsimp only
      rw [leftCut, rightCut, dif_pos ⟨by omega, by omega⟩, evaluate_eq left scope, evaluate_eq right scope,
        Expression.read_of_split empty literal found, Expression.eval, Guarded.embed_bind]
      refine bind_congr fun leftValue => ?_
      rw [Guarded.embed_bind]
      exact bind_congr fun rightValue => combine_eq operator leftValue rightValue _
    | none =>
      rw [Option.map_none]
      dsimp only
      rw [Guarded.check_ok (enclosed_eq empty), pure_bind]
      cases closed : Expression.enclosed? (Text.trim written) with
      | some inside =>
        have shorter := Expression.length_of_enclosed? closed
        dsimp only
        rw [dif_pos (by omega), evaluate_eq inside scope, Expression.read_of_enclosed empty literal found closed]
        rfl
      | none =>
        dsimp only
        rw [Expression.read_of_bare empty literal found closed]
        by_cases identifier : Text.isIdentifier (Text.trim written) = true
        · rw [if_pos identifier, if_pos identifier, valueOf_eq]
        · rw [if_neg identifier, if_neg identifier]
          rfl
termination_by written.length

end Checked

end ComponentPages
