import ComponentPages.Failure
import ComponentPages.Text.Nesting

/-!
Expressions are read into trees and then evaluated. Reading never fails: a piece that is no expression becomes
a leaf holding its failure, which arises only when evaluation reaches it. So operands fail in the order in
which they are evaluated, the left one first.

A text is split at its loosest operator outside quotations and parentheses: the symbols of disjunction,
conjunction and comparison at their leftmost occurrence, then addition and multiplication at their rightmost.
-/
namespace ComponentPages

inductive Operator where
  | or | and
  | equal | notEqual | atMost | atLeast | less | greater
  | add | subtract
  | multiply | divide | modulo
deriving DecidableEq

namespace Operator

def symbol : Operator → Text
  | .or => "||"
  | .and => "&&"
  | .equal => "=="
  | .notEqual => "!="
  | .atMost => "<="
  | .atLeast => ">="
  | .less => "<"
  | .greater => ">"
  | .add => "+"
  | .subtract => "-"
  | .multiply => "*"
  | .divide => "/"
  | .modulo => "%"

/-- The operators that associate to the right, loosest first. -/
def rightward : List Operator := [.or, .and, .equal, .notEqual, .atMost, .atLeast, .less, .greater]

def comparisons : List Operator := [.equal, .notEqual, .atMost, .atLeast, .less, .greater]

/-- The groups of operators that associate to the left, loosest first. -/
def leftward : List (List Operator) := [[.add, .subtract], [.multiply, .divide, .modulo]]

end Operator

/-- An expression tree. A binary node keeps the text it was read from, for reports. -/
inductive Expression where
  | literal (value : Value)
  | variable (name : Text)
  | binary (operator : Operator) (left right : Expression) (source : Text)
  | invalid (failure : Failure)

namespace Value

/-- The remainder takes the sign of the dividend. -/
def arithmetic (operator : Operator) (left right : Int) (source : Text) : Except Failure Value :=
  match operator with
  | .subtract => .ok (.int (left - right))
  | .multiply => .ok (.int (left * right))
  | .divide => if right = 0 then .error (.divisionByZero source) else .ok (.int (left.tdiv right))
  | .modulo => if right = 0 then .error (.moduloByZero source) else .ok (.int (left.tmod right))
  | _ => .ok (.int (left + right))

def addition (left right : Value) (source : Text) : Except Failure Value :=
  match left, right with
  | .string left, .string right => .ok (.string (left ++ right))
  | .int left, .int right => .ok (.int (left + right))
  | _, _ => .error (.additionOperands source)

/-- Whether a comparison holds, given the order of its two sides. -/
def ordered (operator : Operator) (order : Ordering) : Bool :=
  match operator with
  | .equal => order == .eq
  | .notEqual => order != .eq
  | .atMost => order != .gt
  | .atLeast => order != .lt
  | .less => order == .lt
  | _ => order == .gt

/-- Order of texts by code points. -/
def textOrder (left right : Text) : Ordering :=
  if left = right then .eq else if Text.before left right then .lt else .gt

/-- Compares two values of one type by the operator with a given symbol. Booleans have no order, and an
unknown symbol is refused last. -/
def compare (left right : Value) (symbol source : Text) : Except Failure Value :=
  let operator? := Operator.comparisons.find? fun operator => operator.symbol = symbol
  match left, right with
  | .boolean left, .boolean right =>
    match operator? with
    | some .equal => .ok (.boolean (left == right))
    | some .notEqual => .ok (.boolean (left != right))
    | _ => .error (.unorderedBooleans source)
  | .int left, .int right =>
    match operator? with
    | some operator => .ok (.boolean (ordered operator (Ord.compare left right)))
    | none => .error (.unknownComparison symbol source)
  | .string left, .string right =>
    match operator? with
    | some operator => .ok (.boolean (ordered operator (textOrder left right)))
    | none => .error (.unknownComparison symbol source)
  | left, right => .error (.incomparable left.type right.type source)

/-- Applies an operator to two values. -/
def combine (operator : Operator) (left right : Value) (source : Text) : Except Failure Value :=
  match operator with
  | .or | .and =>
    match left, right with
    | .boolean left, .boolean right =>
      .ok (.boolean (if operator = .and then left && right else left || right))
    | _, _ => .error (.logicalOperands operator.symbol source)
  | .add => addition left right source
  | .subtract | .multiply | .divide | .modulo =>
    match left, right with
    | .int left, .int right => arithmetic operator left right source
    | _, _ => .error (.integerOperands operator.symbol source)
  | operator => compare left right operator.symbol source

end Value

namespace Expression

def eval (scope : Scope) : Expression → Except Failure Value
  | .literal value => .ok value
  | .variable name =>
    match scope.lookup name with
    | some value => .ok value
    | none => .error (.undefinedVariable name)
  | .binary operator left right source => do
    let left ← left.eval scope
    let right ← right.eval scope
    left.combine operator right source
  | .invalid failure => .error failure

/-- An integer is an optional minus sign, white space and digits. -/
def integer? (text : Text) : Option Value :=
  match text with
  | '-' :: digits => (Text.toNat? (Text.trimLeft digits)).map fun n => .int (-n)
  | digits => (Text.toNat? (Text.trimLeft digits)).map fun n => .int n

/-- A quoted text holds its own quote at its two ends only. -/
def quoted? : Text → Option Value
  | [] => none
  | quote :: rest =>
    match rest.reverse with
    | [] => none
    | last :: inside =>
      if isQuote quote && last == quote && !inside.elem quote then some (.string inside.reverse) else none

def literal? (text : Text) : Option Value :=
  if text = "true" then some (.boolean true)
  else if text = "false" then some (.boolean false)
  else (quoted? text).or (integer? text)

/-- What follows a symbol that stands at the front, outside quotations and parentheses. -/
def symbolHere? (symbol : Text) (nesting : Nesting) (c : Char) (rest : Text) : Option Text :=
  if nesting.isOutside && !isQuote c && c != '(' && c != ')' then Text.after? symbol (c :: rest) else none

/-- Splits at the leftmost occurrence of a symbol outside quotations and parentheses. -/
def splitLeft? (symbol : Text) (nesting : Nesting) : Text → Option (Text × Text)
  | [] => none
  | c :: rest =>
    match symbolHere? symbol nesting c rest with
    | some right => some ([], right)
    | none =>
      (splitLeft? symbol (nesting.step '(' ')' c) rest).map fun (left, right) => (c :: left, right)

def isOperatorChar (c : Char) : Bool := ("+-*/%<>=!&|" : Text).elem c

/-- Whether the text read backwards ends in an operand, so that an operator after it is not a sign. -/
def endsOperand (backwards : Text) : Bool :=
  match Text.trimLeft backwards with
  | [] => false
  | c :: _ => !isOperatorChar c

/-- The operator that a character is, if it stands outside quotations and parentheses and after an operand. -/
def operatorHere? (operators : List Operator) (nesting : Nesting) (c : Char) (backwards : Text) :
    Option Operator :=
  if nesting.isOutside && endsOperand backwards then
    operators.find? fun operator => operator.symbol = [c]
  else none

/-- Splits at the rightmost of several one-character operators, reading backwards with what was passed. -/
def splitRight? (operators : List Operator) (nesting : Nesting) (backwards passed : Text) :
    Option (Operator × Text × Text) :=
  match backwards with
  | [] => none
  | c :: before =>
    match operatorHere? operators nesting c before with
    | some operator => some (operator, before.reverse, passed)
    | none => splitRight? operators (nesting.step ')' '(' c) before (c :: passed)

/-- The loosest operator of a text with its two operands. -/
def split? (text : Text) : Option (Operator × Text × Text) :=
  (Operator.rightward.findSome? fun operator =>
    (splitLeft? operator.symbol {} text).map fun (left, right) => (operator, left, right)).or
  (Operator.leftward.findSome? fun operators => splitRight? operators {} text.reverse [])

/-- What stands between the parentheses that enclose a whole text. -/
def enclosed? : Text → Option Text
  | '(' :: rest =>
    match Nesting.close? '(' ')' ⟨none, 1⟩ rest with
    | some (inside, []) => some inside
    | _ => none
  | _ => none

theorem length_of_splitLeft? {symbol : Text} {nesting : Nesting} {text left right : Text}
    (found : splitLeft? symbol nesting text = some (left, right)) :
    text.length = left.length + symbol.length + right.length := by
  induction text generalizing nesting left with
  | nil => simp [splitLeft?] at found
  | cons c rest ih =>
    unfold splitLeft? at found
    split at found
    · next here =>
      simp only [Option.some.injEq, Prod.mk.injEq] at found
      obtain ⟨rfl, rfl⟩ := found
      unfold symbolHere? at here
      split at here
      · simpa using Text.length_of_after? here
      · simp at here
    · obtain ⟨⟨before, remainder⟩, later, same⟩ := Option.map_eq_some_iff.1 found
      simp only [Prod.mk.injEq] at same
      obtain ⟨rfl, rfl⟩ := same
      simp [ih later]; omega

theorem length_of_splitRight? {operators : List Operator} {nesting : Nesting}
    {backwards passed left right : Text} {operator : Operator}
    (found : splitRight? operators nesting backwards passed = some (operator, left, right)) :
    backwards.length + passed.length = left.length + 1 + right.length := by
  induction backwards generalizing nesting passed with
  | nil => simp [splitRight?] at found
  | cons c before ih =>
    unfold splitRight? at found
    split at found
    · simp only [Option.some.injEq, Prod.mk.injEq] at found
      obtain ⟨-, rfl, rfl⟩ := found
      simp
    · have later := ih found
      simp only [List.length_cons] at later ⊢
      omega

theorem length_of_split? {text left right : Text} {operator : Operator}
    (found : split? text = some (operator, left, right)) :
    left.length < text.length ∧ right.length < text.length := by
  rcases Option.or_eq_some_iff.1 found with leftmost | ⟨-, rightmost⟩
  · obtain ⟨candidate, member, mapped⟩ := List.exists_of_findSome?_eq_some leftmost
    obtain ⟨⟨before, after⟩, located, same⟩ := Option.map_eq_some_iff.1 mapped
    simp only [Prod.mk.injEq] at same
    obtain ⟨rfl, rfl, rfl⟩ := same
    have sizes := length_of_splitLeft? located
    have nonempty : 0 < candidate.symbol.length := by cases candidate <;> decide
    omega
  · obtain ⟨group, -, located⟩ := List.exists_of_findSome?_eq_some rightmost
    have sizes := length_of_splitRight? located
    simp only [List.length_reverse, List.length_nil] at sizes
    omega

theorem length_of_enclosed? {text inside : Text} (found : enclosed? text = some inside) :
    inside.length < text.length := by
  unfold enclosed? at found
  split at found
  · split at found
    · next closed =>
      obtain rfl := Option.some.inj found
      simp only [Nesting.eq_of_close? closed, List.length_cons, List.length_append]
      omega
    · simp at found
  · simp at found

/-- Reads an expression. -/
def read (written : Text) : Expression :=
  let text := Text.trim written
  if text = [] then .invalid (.emptyExpression written)
  else
    match literal? text with
    | some value => .literal value
    | none =>
      match _found : split? text with
      | some (operator, left, right) => .binary operator (read left) (read right) text
      | none =>
        match _found : enclosed? text with
        | some inside => read inside
        | none => if Text.isIdentifier text then .variable text else .invalid (.invalidExpression text)
termination_by written.length
decreasing_by
  all_goals have trimmed := Text.length_trim_le written
  · have parts := length_of_split? _found; simp only [text] at parts; omega
  · have parts := length_of_split? _found; simp only [text] at parts; omega
  · have part := length_of_enclosed? _found; simp only [text] at part; omega

/-- The value of a written expression. -/
def evaluate (written : Text) (scope : Scope) : Except Failure Value := (read written).eval scope

end Expression

end ComponentPages
