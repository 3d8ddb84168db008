import ComponentPages.Proofs.Expression.Reading
import Mathlib.Data.Char
import Mathlib.Data.List.Lex

/-!
Evaluation. A text that renders a term has the value that the term denotes, or fails with the kind that it
denotes; a text that renders no term has no value.
-/
namespace ComponentPages

namespace Text

/-- Texts are ordered as lists of code points. -/
theorem before_iff_lt (left right : Text) : before left right = true ↔ left < right := by
  induction left generalizing right with
  | nil => cases right <;> simp [before]
  | cons c rest ih =>
    cases right with
    | nil => simp [before]
    | cons d other =>
      have order : c.toNat < d.toNat ↔ c < d := by
        rw [Char.lt_def, UInt32.lt_iff_toNat_lt]
        rfl
      rw [before, Bool.or_eq_true, Bool.and_eq_true, decide_eq_true_eq, beq_iff_eq, order, ih other,
        List.cons_lt_cons_iff]

end Text

namespace Value

theorem ordered_eq_holds {α : Type} [LT α] [DecidableEq α] [DecidableLT α] {left right : α} {order : Ordering}
    {operator : Operator} (comparison : operator ∈ Operator.comparisons) (equal : order = .eq ↔ left = right)
    (less : order = .lt ↔ left < right) (greater : order = .gt ↔ right < left) :
    ordered operator order = operator.holds left right := by
  simp only [Operator.comparisons, List.mem_cons, List.not_mem_nil, or_false] at comparison
  rcases comparison with rfl | rfl | rfl | rfl | rfl | rfl <;>
    simp only [ordered, Operator.holds, ne_eq, ← equal, ← less, ← greater] <;> cases order <;> rfl

theorem textOrder_eq (left right : Text) :
    (textOrder left right = .eq ↔ left = right) ∧ (textOrder left right = .lt ↔ left < right) ∧
      (textOrder left right = .gt ↔ right < left) := by
  unfold textOrder
  simp only [Text.before_iff_lt]
  rcases lt_trichotomy left right with less | same | greater
  · simp [less, ne_of_lt less, lt_asymm less]
  · simp [same]
  · simp [greater, (ne_of_lt greater).symm, lt_asymm greater]

theorem intOrder_eq (left right : Int) :
    (Ord.compare left right = .eq ↔ left = right) ∧ (Ord.compare left right = .lt ↔ left < right) ∧
      (Ord.compare left right = .gt ↔ right < left) :=
  ⟨compareOfLessAndEq_eq_eq Int.le_refl Int.not_le, compareOfLessAndEq_eq_lt,
    compareOfLessAndEq_eq_gt Int.le_antisymm Int.le_total Int.not_le left right⟩

theorem apply_of_comparison {operator : Operator} (comparison : operator ∈ Operator.comparisons)
    (left right : Value) :
    operator.apply left right =
      match left, right with
      | .int left, .int right => .ok (.boolean (operator.holds left right))
      | .string left, .string right => .ok (.boolean (operator.holds left right))
      | .boolean left, .boolean right =>
        match operator with
        | .equal => .ok (.boolean (left == right))
        | .notEqual => .ok (.boolean (left != right))
        | _ => .error .typeMismatch
      | _, _ => .error .typeMismatch := by
  simp only [Operator.comparisons, List.mem_cons, List.not_mem_nil, or_false] at comparison
  rcases comparison with rfl | rfl | rfl | rfl | rfl | rfl <;> rfl

/-- A comparison fails exactly as its meaning does, whatever it reports. -/
theorem compare_kind {operator : Operator} (comparison : operator ∈ Operator.comparisons) (left right : Value)
    (source : Text) :
    (compare left right operator.symbol source).mapError Failure.kind = operator.apply left right := by
  have known : Operator.comparisons.find? (fun other => other.symbol = operator.symbol) = some operator := by
    simp only [Operator.comparisons, List.mem_cons, List.not_mem_nil, or_false] at comparison
    rcases comparison with rfl | rfl | rfl | rfl | rfl | rfl <;> decide
  rw [apply_of_comparison comparison]
  unfold compare
  rw [known]
  cases left with
  | int left =>
    cases right with
    | int right =>
      obtain ⟨equal, less, greater⟩ := intOrder_eq left right
      simp only [ordered_eq_holds comparison equal less greater, Except.mapError]
    | string | boolean => rfl
  | string left =>
    cases right with
    | string right =>
      obtain ⟨equal, less, greater⟩ := textOrder_eq left right
      simp only [ordered_eq_holds comparison equal less greater, Except.mapError]
    | int | boolean => rfl
  | boolean left =>
    cases right with
    | boolean right => cases operator <;> rfl
    | int | string => rfl

theorem combine_kind (operator : Operator) (left right : Value) (source : Text) :
    (left.combine operator right source).mapError Failure.kind = operator.apply left right := by
  by_cases comparison : operator ∈ Operator.comparisons
  · have compared := compare_kind comparison left right source
    simp only [Operator.comparisons, List.mem_cons, List.not_mem_nil, or_false] at comparison
    rcases comparison with rfl | rfl | rfl | rfl | rfl | rfl <;> exact compared
  · cases operator with
    | equal | notEqual | atMost | atLeast | less | greater => exact absurd (by decide) comparison
    | divide | modulo =>
      cases left <;> cases right <;> try rfl
      next left right =>
        by_cases zero : right = 0 <;> simp [combine, arithmetic, Operator.apply, zero, Except.mapError, Failure.kind]
    | or | and | add | subtract | multiply => cases left <;> cases right <;> rfl

end Value

namespace Expression

theorem eval_of_term? {expression : Expression} {term : Term} (reads : expression.term? = some term)
    (scope : Scope) : (expression.eval scope).mapError Failure.kind = term.denote scope := by
  induction expression generalizing term with
  | literal value =>
    obtain rfl := Option.some.inj reads
    rfl
  | «variable» name =>
    obtain rfl := Option.some.inj reads
    rw [eval, Term.denote]
    cases scope.lookup name <;> rfl
  | binary operator left right source leftIh rightIh =>
    rw [term?] at reads
    split at reads
    · next leftTerm rightTerm leftReads rightReads =>
      obtain rfl := Option.some.inj reads
      rw [eval, Term.denote, ← leftIh leftReads, ← rightIh rightReads]
      cases left.eval scope with
      | error failure => rfl
      | ok leftValue =>
        cases right.eval scope with
        | error failure => rfl
        | ok rightValue => exact Value.combine_kind operator leftValue rightValue source
    · simp at reads
  | invalid failure => simp [term?] at reads

/-- Evaluation reaches every leaf, so that a leaf that is no expression leaves no value. -/
theorem eval_of_term?_eq_none {expression : Expression} (unread : expression.term? = none) (scope : Scope) :
    ∃ failure, expression.eval scope = .error failure := by
  induction expression with
  | literal value => simp [term?] at unread
  | «variable» name => simp [term?] at unread
  | binary operator left right source leftIh rightIh =>
    rw [eval]
    cases leftValue : left.eval scope with
    | error failure => exact ⟨failure, rfl⟩
    | ok value =>
      have leftRead : left.term? ≠ none := by
        intro none
        obtain ⟨failure, failed⟩ := leftIh none
        rw [leftValue] at failed
        cases failed
      obtain ⟨leftTerm, leftReads⟩ := Option.ne_none_iff_exists'.1 leftRead
      have rightUnread : right.term? = none := by
        cases rightReads : right.term? with
        | none => rfl
        | some rightTerm => simp [term?, leftReads, rightReads] at unread
      obtain ⟨failure, failed⟩ := rightIh rightUnread
      exact ⟨failure, by rw [failed]; rfl⟩
  | invalid failure => exact ⟨failure, rfl⟩

/-- A text writes at most one term. -/
theorem evaluate_name {name : Text} (reads : (read name).term? = some (.name name)) {scope : Scope} {value : Value}
    (bound : scope.lookup name = some value) : evaluate name scope = .ok value := by
  have denoted := eval_of_term? reads scope
  rw [Term.denote, bound] at denoted
  rw [evaluate]
  cases evaluated : (read name).eval scope with
  | error failure =>
    rw [evaluated] at denoted
    cases denoted
  | ok other =>
    rw [evaluated] at denoted
    rw [Except.ok.inj denoted]

theorem Rendered.unique {term other : Term} {text : Text} (rendered : Rendered 0 term text)
    (again : Rendered 0 other text) : term = other := by
  have first := rendered.term?_read text rfl
  rw [again.term?_read text rfl] at first
  exact (Option.some.inj first).symm

/-- Evaluation accepts the renderings of terms and gives what each one denotes, up to the wording of failures;
any other text has no value in any scope. Quotients truncate toward zero. -/
theorem evaluate_exactly_rendered (text : Text) (scope : Scope) :
    (∀ term, Rendered 0 term text → (evaluate text scope).mapError Failure.kind = term.denote scope) ∧
      ((∀ term, ¬Rendered 0 term text) → ∃ failure, evaluate text scope = .error failure) ∧
      ∀ dividend divisor : Int, divisor ≠ 0 → ∃ quotient remainder,
        Operator.divide.apply (.int dividend) (.int divisor) = .ok (.int quotient) ∧
        Operator.modulo.apply (.int dividend) (.int divisor) = .ok (.int remainder) ∧
        dividend = divisor * quotient + remainder ∧ remainder.natAbs < divisor.natAbs ∧
        (0 ≤ dividend → 0 ≤ remainder) ∧ (dividend ≤ 0 → remainder ≤ 0) := by
  refine ⟨?_, ?_, ?_⟩
  · intro term rendered
    exact eval_of_term? (rendered.term?_read text rfl) scope
  · intro foreign
    refine eval_of_term?_eq_none ?_ scope
    cases reads : (read text).term? with
    | none => rfl
    | some term => exact absurd (rendered_of_term?_read reads) (foreign term)
  · intro dividend divisor nonzero
    refine ⟨dividend.tdiv divisor, dividend.tmod divisor, ?_, ?_, Operator.truncates nonzero⟩
    · simp [Operator.apply, nonzero]
    · simp [Operator.apply, nonzero]

end Expression

end ComponentPages
