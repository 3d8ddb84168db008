import ComponentPages.Proofs.Expression.Evaluation
import ComponentPages.Proofs.Markup.Piece

/-!
Values that are plain text when they are rendered. An expression without quotations joins texts of its scope and
makes no other, so where the scope holds no markup its value holds none.
-/
namespace ComponentPages

/-- Whether a value renders as text that no pass takes for markup. -/
def Value.isClean : Value → Bool
  | .string text => text.all isTextPart
  | .int _ | .boolean _ => true

def isCleanScope (scope : Scope) : Bool := scope.all fun (_, value) => value.isClean

theorem isTextPart_of_isDigit {c : Char} (digit : c.isDigit = true) : isTextPart c = true := by
  simp only [Char.isDigit, Bool.and_eq_true, decide_eq_true_eq, UInt32.le_iff_toNat_le, ge_iff_le] at digit
  change 48 ≤ c.toNat ∧ c.toNat ≤ 57 at digit
  have foreign {d : Char} (far : 57 < d.toNat) : c ≠ d := by
    rintro rfl
    omega
  have shown : isReserved c = false := by
    simp only [isReserved, Bool.and_eq_false_iff, decide_eq_false_iff_not]
    omega
  simp [isTextPart, shown, foreign (d := '<') (by decide), foreign (d := '\x7b') (by decide)]

theorem Text.isTextPart_ofNat (n : Nat) : ∀ c ∈ Text.ofNat n, isTextPart c = true := by
  intro c member
  exact isTextPart_of_isDigit (Text.isDigit_of_mem_ofNat member)

namespace Value

theorem isTextPart_render {value : Value} (clean : value.isClean = true) : value.render.all isTextPart = true := by
  cases value with
  | string text => exact clean
  | int number =>
    rw [List.all_eq_true]
    cases number with
    | ofNat n => exact Text.isTextPart_ofNat n
    | negSucc n =>
      intro c member
      rcases List.mem_cons.1 member with rfl | later
      · decide
      · exact Text.isTextPart_ofNat (n + 1) c later
  | boolean truth => cases truth <;> decide

theorem isClean_zero (type : ValueType) : (zero type).isClean = true := by
  cases type <;> rfl

end Value

theorem isClean_of_lookup {scope : Scope} (clean : isCleanScope scope = true) {name : Text} {value : Value}
    (bound : scope.lookup name = some value) : value.isClean = true := by
  induction scope with
  | nil => cases bound
  | cons first scope ih =>
    obtain ⟨other, old⟩ := first
    simp only [isCleanScope, List.all_cons, Bool.and_eq_true] at clean
    rw [List.lookup_cons] at bound
    split at bound
    · cases bound
      exact clean.1
    · exact ih clean.2 bound

theorem Operator.isClean_apply {operator : Operator} {left right value : Value} (leftClean : left.isClean = true)
    (rightClean : right.isClean = true) (applied : operator.apply left right = .ok value) : value.isClean = true := by
  cases operator with
  | add =>
    cases left <;> cases right <;> cases applied
    · exact (List.all_append ..).trans (Bool.and_eq_true_iff.2 ⟨leftClean, rightClean⟩)
    · rfl
  | or | and | subtract | multiply =>
    cases left <;> cases right <;> cases applied
    rfl
  | divide | modulo =>
    cases left <;> cases right <;> try cases applied
    next dividend divisor =>
      rw [Operator.apply] at applied
      split at applied <;> cases applied
      rfl
  | equal | notEqual | atMost | atLeast | less | greater =>
    cases left <;> cases right <;> cases applied <;> rfl

namespace Expression

theorem Rendered.isClean_denote {level : Nat} {term : Term} {text : Text} (rendered : Rendered level term text)
    (unquoted : ∀ c ∈ text, isQuote c = false) {scope : Scope} (clean : isCleanScope scope = true) {value : Value}
    (denoted : term.denote scope = .ok value) : value.isClean = true := by
  induction rendered generalizing value with
  | @token level term written before after _ _ token =>
    cases token with
    | truth | falsity | natural | negative =>
      cases denoted
      rfl
    | string quotes closed =>
      rw [unquoted _ (by simp)] at quotes
      cases quotes
    | name =>
      rw [Term.denote] at denoted
      split at denoted
      · next bound =>
        cases denoted
        exact isClean_of_lookup clean bound
      · cases denoted
  | enclosed _ _ _ ih => exact ih (fun c member => unquoted c (by simp [member])) denoted
  | @binary level operator left right leftText rightText _ _ _ leftIh rightIh =>
    rw [Term.denote] at denoted
    cases leftValue : left.denote scope with
    | error kind =>
      rw [leftValue] at denoted
      cases denoted
    | ok first =>
      cases rightValue : right.denote scope with
      | error kind =>
        rw [leftValue, rightValue] at denoted
        cases denoted
      | ok second =>
        rw [leftValue, rightValue] at denoted
        exact Operator.isClean_apply (leftIh (fun c member => unquoted c (by simp [member])) leftValue)
          (rightIh (fun c member => unquoted c (by simp [member])) rightValue) denoted

/-- Without quotations and in a scope without markup an expression has a value without markup. -/
theorem isClean_evaluate {text : Text} (unquoted : ∀ c ∈ text, isQuote c = false) {scope : Scope}
    (clean : isCleanScope scope = true) {value : Value} (evaluated : evaluate text scope = .ok value) :
    value.isClean = true := by
  cases reads : (read text).term? with
  | none =>
    obtain ⟨failure, failed⟩ := eval_of_term?_eq_none reads scope
    rw [evaluate, failed] at evaluated
    cases evaluated
  | some term =>
    have denoted := eval_of_term? reads scope
    rw [evaluate] at evaluated
    rw [evaluated] at denoted
    exact (rendered_of_term?_read reads).isClean_denote unquoted clean denoted.symm

end Expression

end ComponentPages
