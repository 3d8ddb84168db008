import ComponentPages.Expression
import ComponentPages.Proofs.Text

/-!
The grammar of expressions and what they mean. A term is an expression apart from the way it is written. A
rendering writes a term, with white space around any token, with parentheses where the precedence of the
operators asks for them, and with more parentheses anywhere.
-/
namespace ComponentPages

inductive Term where
  | literal (value : Value)
  | name (word : Text)
  | binary (operator : Operator) (left right : Term)
deriving DecidableEq

namespace Operator

/-- How tightly an operator binds; the loosest has level zero. -/
def level : Operator → Nat
  | .or => 0
  | .and => 1
  | .equal => 2
  | .notEqual => 3
  | .atMost => 4
  | .atLeast => 5
  | .less => 6
  | .greater => 7
  | .add | .subtract => 8
  | .multiply | .divide | .modulo => 9

/-- The level from which a left operand needs no parentheses. Up to level seven operators associate to the
right, so that a left operand binds tighter than its operator. -/
def leftLevel (operator : Operator) : Nat :=
  if operator.level < 8 then operator.level + 1 else operator.level

def rightLevel (operator : Operator) : Nat :=
  if operator.level < 8 then operator.level else operator.level + 1

theorem level_le_leftLevel (operator : Operator) : operator.level ≤ operator.leftLevel := by
  unfold leftLevel
  split <;> omega

theorem level_le_rightLevel (operator : Operator) : operator.level ≤ operator.rightLevel := by
  unfold rightLevel
  split <;> omega

/-- A comparison of two values with an order. -/
def holds {α : Type} [LT α] [DecidableEq α] [DecidableLT α] (operator : Operator) (left right : α) : Bool :=
  match operator with
  | .equal => left = right
  | .notEqual => left ≠ right
  | .atMost => ¬right < left
  | .atLeast => ¬left < right
  | .less => left < right
  | _ => right < left

/-- What an operator makes of two values, or the kind of failure. Strings are ordered by code points. -/
def apply (operator : Operator) (left right : Value) : Except FailureKind Value :=
  match operator with
  | .or =>
    match left, right with
    | .boolean left, .boolean right => .ok (.boolean (left || right))
    | _, _ => .error .typeMismatch
  | .and =>
    match left, right with
    | .boolean left, .boolean right => .ok (.boolean (left && right))
    | _, _ => .error .typeMismatch
  | .add =>
    match left, right with
    | .int left, .int right => .ok (.int (left + right))
    | .string left, .string right => .ok (.string (left ++ right))
    | _, _ => .error .typeMismatch
  | .subtract | .multiply | .divide | .modulo =>
    match left, right with
    | .int left, .int right =>
      match operator with
      | .subtract => .ok (.int (left - right))
      | .multiply => .ok (.int (left * right))
      | .divide => if right = 0 then .error .divisionByZero else .ok (.int (left.tdiv right))
      | _ => if right = 0 then .error .moduloByZero else .ok (.int (left.tmod right))
    | _, _ => .error .typeMismatch
  | .equal | .notEqual | .atMost | .atLeast | .less | .greater =>
    match left, right with
    | .int left, .int right => .ok (.boolean (operator.holds left right))
    | .string left, .string right => .ok (.boolean (operator.holds left right))
    | .boolean left, .boolean right =>
      match operator with
      | .equal => .ok (.boolean (left == right))
      | .notEqual => .ok (.boolean (left != right))
      | _ => .error .typeMismatch
    | _, _ => .error .typeMismatch

/-- Division truncates toward zero: the remainder is smaller than the divisor and has no other sign than the
dividend. -/
theorem truncates {dividend divisor : Int} (nonzero : divisor ≠ 0) :
    dividend = divisor * dividend.tdiv divisor + dividend.tmod divisor ∧
      (dividend.tmod divisor).natAbs < divisor.natAbs ∧
      (0 ≤ dividend → 0 ≤ dividend.tmod divisor) ∧ (dividend ≤ 0 → dividend.tmod divisor ≤ 0) := by
  refine ⟨(Int.mul_tdiv_add_tmod dividend divisor).symm, ?_, ?_, ?_⟩
  · rw [Int.natAbs_tmod]
    exact Nat.mod_lt _ (Int.natAbs_pos.2 nonzero)
  · exact Int.tmod_nonneg divisor
  · intro negative
    have mirrored := Int.tmod_nonneg divisor (Int.neg_nonneg.2 negative)
    rw [Int.neg_tmod] at mirrored
    omega

end Operator

namespace Term

/-- The value of a term in a scope. Both operands are evaluated, the left one first, whatever the operator. -/
def denote (scope : Scope) : Term → Except FailureKind Value
  | .literal value => .ok value
  | .name word =>
    match scope.lookup word with
    | some value => .ok value
    | none => .error .undefinedVariable
  | .binary operator left right => do
    let left ← left.denote scope
    let right ← right.denote scope
    operator.apply left right

end Term

namespace Expression

/-- The tokens that stand for a term by themselves. The words `true` and `false` are literals and name no
variable. -/
inductive Token : Term → Text → Prop
  | truth : Token (.literal (.boolean true)) "true"
  | falsity : Token (.literal (.boolean false)) "false"
  | natural {digits : Text} (nonempty : digits ≠ []) (decimal : ∀ c ∈ digits, c.isDigit = true) :
    Token (.literal (.int (Nat.ofDigitChars 10 digits 0))) digits
  | negative {space digits : Text} (blank : IsSpace space) (nonempty : digits ≠ [])
    (decimal : ∀ c ∈ digits, c.isDigit = true) :
    Token (.literal (.int (-Nat.ofDigitChars 10 digits 0))) ('-' :: space ++ digits)
  | string {quote : Char} {body : Text} (quotes : isQuote quote = true) (closed : quote ∉ body) :
    Token (.literal (.string body)) (quote :: body ++ [quote])
  | name {word : Text} (identifier : Text.isIdentifier word = true) (noTruth : word ≠ "true")
    (noFalsity : word ≠ "false") : Token (.name word) word

/-- The texts that write a term where operators of a level and tighter ones need no parentheses. -/
inductive Rendered : Nat → Term → Text → Prop
  | token {level : Nat} {term : Term} {written before after : Text} (spaceBefore : IsSpace before)
    (spaceAfter : IsSpace after) (token : Token term written) : Rendered level term (before ++ written ++ after)
  | enclosed {level : Nat} {term : Term} {inside before after : Text} (spaceBefore : IsSpace before)
    (spaceAfter : IsSpace after) (rendered : Rendered 0 term inside) :
    Rendered level term (before ++ ('(' :: inside ++ [')']) ++ after)
  | binary {level : Nat} {operator : Operator} {left right : Term} {leftText rightText : Text}
    (binds : level ≤ operator.level) (leftRendered : Rendered operator.leftLevel left leftText)
    (rightRendered : Rendered operator.rightLevel right rightText) :
    Rendered level (.binary operator left right) (leftText ++ operator.symbol ++ rightText)

/-- The term that was read, unless some piece was no expression. -/
def term? : Expression → Option Term
  | .literal value => some (.literal value)
  | .variable name => some (.name name)
  | .binary operator left right _ =>
    match left.term?, right.term? with
    | some left, some right => some (.binary operator left right)
    | _, _ => none
  | .invalid _ => none

end Expression

end ComponentPages
