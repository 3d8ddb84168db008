import ComponentPages.Conditional
import ComponentPages.Placeholder
import ComponentPages.Proofs.Expression.Evaluation

/-!
How conditions are passed over. The search for conditionals sees the braces of a text and neither its quotations
nor its parentheses, while the reader of a condition sees the latter and no opening brace. Both come to the end
of a text without braces, and the reader comes out of an expression as it went in.
-/
namespace ComponentPages

/-- A text in braces. -/
def braced (inner : Text) : Text := '\x7b' :: inner ++ ['\x7d']

theorem forall_braced {accepts : Char → Prop} {inner : Text} (opening : accepts '\x7b') (closing : accepts '\x7d')
    (inside : ∀ c ∈ inner, accepts c) : ∀ c ∈ braced inner, accepts c := by
  intro c member
  simp only [braced, List.cons_append, List.mem_cons, List.mem_append, List.not_mem_nil, or_false] at member
  rcases member with rfl | within | rfl
  · exact opening
  · exact inside c within
  · exact closing

namespace Conditional

/-- Whether an opening parenthesis stands behind a question mark, which may have come before the text. -/
def asks (question : Bool) (text : Text) : Bool := (if question then text else text.dropWhile (· != '?')).elem '('

/-- The search for a conditional stops at such a parenthesis, and otherwise goes on behind the text. -/
theorem opens_append {text : Text} (braceless : ∀ c ∈ text, Placeholder.isBrace c = false) (question : Bool)
    (rest : Text) : opens 1 question (text ++ rest) = (asks question text || opens 1 (question || text.elem '?') rest) := by
  induction text generalizing question with
  | nil => cases question <;> rfl
  | cons c text ih =>
    have here := braceless c List.mem_cons_self
    simp only [Placeholder.isBrace, Bool.or_eq_false_iff, beq_eq_false_iff_ne] at here
    have later := ih fun d member => braceless d (List.mem_cons_of_mem c member)
    rw [List.cons_append, opens, if_neg here.1, if_neg here.2]
    by_cases mark : c = '?'
    · subst mark
      cases question <;> simp [later, asks]
    · by_cases parenthesis : c = '('
      · subst parenthesis
        cases question <;> simp [later, asks]
      · cases question <;> simp [later, asks, mark, Ne.symm mark, parenthesis, Ne.symm parenthesis]

/-- At the brace that closes the text the search gives up. -/
theorem opens_braced {text : Text} (braceless : ∀ c ∈ text, Placeholder.isBrace c = false) (rest : Text) :
    opens 1 false (text ++ '\x7d' :: rest) = asks false text := by
  rw [opens_append braceless, opens]
  simp

theorem asks_of_unmarked {text : Text} (unmarked : ∀ c ∈ text, c ≠ '?') : asks false text = false := by
  have dropped : text.dropWhile (· != '?') = [] :=
    List.dropWhile_eq_nil_iff.2 fun c member => bne_iff_ne.2 (unmarked c member)
  rw [asks, if_neg Bool.false_ne_true, dropped]
  rfl

/-- The state in which the reader of a condition comes out of a text; nothing if a question mark stands outside
its quotations. -/
def conditionEnd? (nesting : Nesting) : Text → Option Nesting
  | [] => some nesting
  | c :: rest =>
    if nesting.quote.isNone && c == '?' then none else conditionEnd? (nesting.step '(' ')' c) rest

theorem conditionEnd?_append (nesting : Nesting) (first second : Text) :
    conditionEnd? nesting (first ++ second) = (conditionEnd? nesting first).bind fun after =>
      conditionEnd? after second := by
  induction first generalizing nesting with
  | nil => rfl
  | cons c first ih =>
    rw [List.cons_append, conditionEnd?, conditionEnd?]
    split
    · rfl
    · exact ih _

/-- The reader of a condition passes over such a text. -/
theorem splitCondition?_append {nesting after : Nesting} {text : Text} (ends : conditionEnd? nesting text = some after)
    (braceless : ∀ c ∈ text, Placeholder.isBrace c = false) (rest : Text) :
    splitCondition? nesting (text ++ rest) =
      (splitCondition? after rest).map fun (condition, mark, more) => (text ++ condition, mark, more) := by
  induction text generalizing nesting with
  | nil =>
    obtain rfl := Option.some.inj ends
    simp
  | cons c text ih =>
    have here := braceless c List.mem_cons_self
    simp only [Placeholder.isBrace, Bool.or_eq_false_iff, beq_eq_false_iff_ne] at here
    rw [conditionEnd?] at ends
    split at ends
    · cases ends
    · next quiet =>
      have passed : ¬(nesting.isOutside && (c == '?' || c == '\x7d')) = true := by
        simp only [Nesting.isOutside, Bool.and_eq_true, Bool.or_eq_true, beq_iff_eq, not_and, not_or] at quiet ⊢
        exact fun outside => ⟨quiet outside.1, here.2⟩
      rw [List.cons_append, splitCondition?, if_neg passed,
        ih ends fun d member => braceless d (List.mem_cons_of_mem c member), Option.map_map]
      rfl

/-- The reader of a condition stops behind it, outside quotations and parentheses. -/
theorem splitCondition?_stop {condition : Text} (ends : conditionEnd? {} condition = some {})
    (braceless : ∀ c ∈ condition, Placeholder.isBrace c = false) {mark : Char} (stops : mark = '?' ∨ mark = '\x7d')
    (rest : Text) : splitCondition? {} (condition ++ mark :: rest) = some (condition, mark, rest) := by
  have here : splitCondition? {} (mark :: rest) = some ([], mark, rest) := by
    rcases stops with rfl | rfl <;> rfl
  rw [splitCondition?_append ends braceless, here]
  simp

end Conditional

namespace Expression

open Conditional (conditionEnd? conditionEnd?_append)

/-! ### Expressions as conditions -/

theorem conditionEnd?_flat (depth : Int) {text : Text} (flat : ∀ c ∈ text, IsFlat c ∧ c ≠ '?') :
    conditionEnd? ⟨none, depth⟩ text = some ⟨none, depth⟩ := by
  induction text with
  | nil => rfl
  | cons c text ih =>
    obtain ⟨⟨noQuote, noOpening, noClosing⟩, noMark⟩ := flat c List.mem_cons_self
    rw [conditionEnd?, if_neg (by simpa using noMark), Nesting.step_of_plain depth noQuote noOpening noClosing]
    exact ih fun d member => flat d (List.mem_cons_of_mem c member)

theorem conditionEnd?_quotation (depth : Int) {quote : Char} {body : Text} (closed : quote ∉ body) :
    conditionEnd? ⟨some quote, depth⟩ (body ++ [quote]) = some ⟨none, depth⟩ := by
  induction body with
  | nil => simp [conditionEnd?, Nesting.step]
  | cons c body ih =>
    have other : c ≠ quote := fun same => closed (same ▸ List.mem_cons_self)
    rw [List.cons_append, conditionEnd?, if_neg (by simp)]
    simp only [Nesting.step, if_neg other]
    exact ih fun member => closed (List.mem_cons_of_mem c member)

theorem isFlat_of_isPlain_mark {c : Char} (plain : isPlain c = true) : IsFlat c ∧ c ≠ '?' :=
  ⟨isFlat_of_isPlain plain, ne_of_isPlain plain (by decide)⟩

theorem Token.conditionEnd? {term : Term} {written : Text} (token : Token term written) (depth : Int) :
    conditionEnd? ⟨none, depth⟩ written = some ⟨none, depth⟩ := by
  rcases token.shape with ⟨sign, body, rfl, signed, plain⟩ | ⟨quote, body, rfl, quotes, closed⟩
  · apply conditionEnd?_flat
    intro c member
    rcases List.mem_append.1 member with inSign | inBody
    · rcases signed with rfl | rfl
      · cases inSign
      · obtain rfl : c = '-' := by simpa using inSign
        exact isFlat_of_isPlain_mark (by decide)
    · exact isFlat_of_isPlain_mark (plain c inBody).1
  · have noMark : quote ≠ '?' := by
      rintro rfl
      exact absurd quotes (by decide)
    rw [List.cons_append, Conditional.conditionEnd?, if_neg (by simpa using noMark)]
    simp only [Nesting.step, quotes, if_true]
    exact conditionEnd?_quotation depth closed

theorem ne_of_mem_symbol (operator : Operator) : ∀ c ∈ operator.symbol, c ≠ '?' := by
  cases operator <;> decide

/-- The reader of a condition comes out of a rendering in the state in which it went in. -/
theorem Rendered.conditionEnd? {level : Nat} {term : Term} {text : Text} (rendered : Rendered level term text)
    (depth : Int) : conditionEnd? ⟨none, depth⟩ text = some ⟨none, depth⟩ := by
  have flat {space : Text} (blank : IsSpace space) (depth : Int) :
      Conditional.conditionEnd? ⟨none, depth⟩ space = some ⟨none, depth⟩ :=
    conditionEnd?_flat depth fun c member => isFlat_of_isPlain_mark (isPlain_of_isBlank (blank c member)).1
  induction rendered generalizing depth with
  | token spaceBefore spaceAfter token =>
    rw [conditionEnd?_append, conditionEnd?_append, flat spaceBefore, Option.bind_some, token.conditionEnd?,
      Option.bind_some, flat spaceAfter]
  | @enclosed level term inside before after spaceBefore spaceAfter rendered ih =>
    have opened : Nesting.step '(' ')' ⟨none, depth⟩ '(' = ⟨none, depth + 1⟩ := rfl
    have closed : Nesting.step '(' ')' ⟨none, depth + 1⟩ ')' = ⟨none, depth⟩ := by
      simp [Nesting.step, isQuote]
    have parenthesized : Conditional.conditionEnd? ⟨none, depth⟩ ('(' :: inside ++ [')']) = some ⟨none, depth⟩ := by
      rw [List.cons_append, Conditional.conditionEnd?, if_neg (by simp), opened, conditionEnd?_append, ih,
        Option.bind_some, Conditional.conditionEnd?, if_neg (by simp), closed]
      rfl
    rw [conditionEnd?_append, conditionEnd?_append, flat spaceBefore, Option.bind_some, parenthesized,
      Option.bind_some, flat spaceAfter]
  | @binary level operator left right leftText rightText binds leftRendered rightRendered leftIh rightIh =>
    have symbol : Conditional.conditionEnd? ⟨none, depth⟩ operator.symbol = some ⟨none, depth⟩ :=
      conditionEnd?_flat depth fun c member => ⟨isFlat_of_mem_symbol operator c member, ne_of_mem_symbol operator c member⟩
    rw [conditionEnd?_append, conditionEnd?_append, leftIh, Option.bind_some, symbol, Option.bind_some, rightIh]

/-- A text that has a value is the rendering of a term. -/
theorem exists_rendered_of_evaluate {text : Text} {scope : Scope} {value : Value} (evaluates : evaluate text scope = .ok value) :
    ∃ term, Rendered 0 term text := by
  cases reads : (read text).term? with
  | some term => exact ⟨term, rendered_of_term?_read reads⟩
  | none =>
    obtain ⟨failure, failed⟩ := eval_of_term?_eq_none reads scope
    rw [evaluate, failed] at evaluates
    cases evaluates

end Expression

end ComponentPages
