import ComponentPages.Proofs.Expression.Grammar
import ComponentPages.Proofs.Nesting

/-!
Scans over renderings. A rendering closes its quotations and parentheses, so that a scan comes out of it in the
state in which it went in; on the way it meets no operator that is looser than the level of the rendering, and
inside parentheses none at all. The forward scan and the backward scan agree on this.
-/
namespace ComponentPages

namespace Expression

/-- A character of a number, of a word or of white space. -/
def isPlain (c : Char) : Bool := isIdentifierPart c || isBlank c || c == '-'

theorem ne_of_isPlain {c d : Char} (plain : isPlain c = true) (other : isPlain d = false) : c ≠ d := by
  rintro rfl
  simp [plain] at other

theorem isQuote_of_isPlain {c : Char} (plain : isPlain c = true) : isQuote c = false := by
  have single := ne_of_isPlain plain (d := '\'') (by decide)
  have double := ne_of_isPlain plain (d := '"') (by decide)
  simp [isQuote, single, double]

/-- A character that is neither a quote nor a parenthesis leaves the state of a scan as it is. -/
def IsFlat (c : Char) : Prop := isQuote c = false ∧ c ≠ '(' ∧ c ≠ ')'

theorem isFlat_of_isPlain {c : Char} (plain : isPlain c = true) : IsFlat c :=
  ⟨isQuote_of_isPlain plain, ne_of_isPlain plain (by decide), ne_of_isPlain plain (by decide)⟩

/-! ### Steps of a scan -/

theorem symbolHere?_of_plain {operator : Operator} (rightward : operator.level < 8) {c : Char}
    (plain : isPlain c = true) (nesting : Nesting) (rest : Text) :
    symbolHere? operator.symbol nesting c rest = none := by
  unfold symbolHere?
  split
  · cases operator <;> simp only [Operator.level] at rightward <;>
      first
      | omega
      | exact if_neg (ne_of_isPlain plain (by decide)).symm
  · rfl

theorem symbolHere?_of_inside {symbol rest : Text} {nesting : Nesting} {c : Char}
    (inside : nesting.isOutside = false) : symbolHere? symbol nesting c rest = none := by
  simp [symbolHere?, inside]

theorem isOutside_of_pos {depth : Int} (positive : 0 < depth) : Nesting.isOutside ⟨none, depth⟩ = false := by
  simp only [Nesting.isOutside, Option.isNone_none, Bool.true_and, beq_eq_false_iff_ne]
  omega

/-! ### The forward scan -/

theorem splitLeft?_of_none {symbol rest : Text} {nesting : Nesting} {c : Char}
    (none : symbolHere? symbol nesting c rest = none) :
    splitLeft? symbol nesting (c :: rest) =
      (splitLeft? symbol (nesting.step '(' ')' c) rest).map (prepend [c]) := by
  rw [splitLeft?, none]
  rfl

/-- The scan passes over a text without brackets and quotes in which the symbol begins nowhere. -/
theorem splitLeft?_append_of_unseen {symbol : Text} {depth : Int} {text rest : Text}
    (flat : ∀ c ∈ text, IsFlat c)
    (unseen : ∀ c tail, (c :: tail) <:+ text → symbolHere? symbol ⟨none, depth⟩ c (tail ++ rest) = none) :
    splitLeft? symbol ⟨none, depth⟩ (text ++ rest) =
      (splitLeft? symbol ⟨none, depth⟩ rest).map (prepend text) := by
  induction text with
  | nil => exact (map_prepend_nil _).symm
  | cons c text ih =>
    obtain ⟨noQuote, noOpening, noClosing⟩ := flat c List.mem_cons_self
    rw [List.cons_append, splitLeft?_of_none (unseen c text (List.suffix_refl _)),
      Nesting.step_of_plain depth noQuote noOpening noClosing,
      ih (fun d member => flat d (List.mem_cons_of_mem c member))
        (fun d tail ending => unseen d tail (ending.trans (List.suffix_cons c text))),
      map_prepend_prepend]
    rfl

theorem splitLeft?_plain_append {operator : Operator} (rightward : operator.level < 8) (depth : Int)
    {text : Text} (plain : ∀ c ∈ text, isPlain c = true) (rest : Text) :
    splitLeft? operator.symbol ⟨none, depth⟩ (text ++ rest) =
      (splitLeft? operator.symbol ⟨none, depth⟩ rest).map (prepend text) := by
  apply splitLeft?_append_of_unseen
  · intro c member
    exact isFlat_of_isPlain (plain c member)
  · intro c tail ending
    exact symbolHere?_of_plain rightward (plain c (ending.subset List.mem_cons_self)) _ _

theorem splitLeft?_quotation (symbol : Text) (depth : Int) {quote : Char} {body : Text}
    (closed : quote ∉ body) (rest : Text) :
    splitLeft? symbol ⟨some quote, depth⟩ (body ++ quote :: rest) =
      (splitLeft? symbol ⟨none, depth⟩ rest).map (prepend (body ++ [quote])) := by
  induction body with
  | nil =>
    rw [List.nil_append, splitLeft?_of_none (symbolHere?_of_inside rfl)]
    simp [Nesting.step]
  | cons c body ih =>
    have other : c ≠ quote := fun same => closed (same ▸ List.mem_cons_self)
    rw [List.cons_append, splitLeft?_of_none (symbolHere?_of_inside rfl)]
    simp only [Nesting.step, if_neg other]
    rw [ih (fun member => closed (List.mem_cons_of_mem c member)), map_prepend_prepend]
    rfl

theorem splitLeft?_quoted_append (symbol : Text) (depth : Int) {quote : Char} {body : Text}
    (quotes : isQuote quote = true) (closed : quote ∉ body) (rest : Text) :
    splitLeft? symbol ⟨none, depth⟩ (quote :: body ++ [quote] ++ rest) =
      (splitLeft? symbol ⟨none, depth⟩ rest).map (prepend (quote :: body ++ [quote])) := by
  have unseen : symbolHere? symbol ⟨none, depth⟩ quote (body ++ quote :: rest) = none := by
    simp [symbolHere?, quotes]
  rw [List.append_assoc, List.cons_append, List.singleton_append, splitLeft?_of_none unseen]
  simp only [Nesting.step, quotes, if_true]
  rw [splitLeft?_quotation symbol depth closed, map_prepend_prepend]
  rfl

theorem splitLeft?_of_bracket (symbol : Text) (nesting : Nesting) {c : Char} (bracket : c = '(' ∨ c = ')')
    (rest : Text) :
    splitLeft? symbol nesting (c :: rest) =
      (splitLeft? symbol (nesting.step '(' ')' c) rest).map (prepend [c]) := by
  apply splitLeft?_of_none
  rcases bracket with rfl | rfl <;> simp [symbolHere?]

/-! ### The backward scan -/

theorem splitRight?_of_none {operators : List Operator} {nesting : Nesting} {c : Char} {before : Text}
    (none : operatorHere? operators nesting c before = none) (passed : Text) :
    splitRight? operators nesting (c :: before) passed =
      splitRight? operators (nesting.step ')' '(' c) before (c :: passed) := by
  rw [splitRight?, none]

theorem operatorHere?_of_not_operator (operators : List Operator) (nesting : Nesting) {c : Char}
    (other : isOperatorChar c = false) (before : Text) : operatorHere? operators nesting c before = none := by
  unfold operatorHere?
  split
  · rw [List.find?_eq_none]
    rintro operator - same
    have only : operator.symbol = [c] := by simpa using same
    cases operator <;> simp only [Operator.symbol] at only <;> cases only <;> exact absurd other (by decide)
  · rfl

theorem operatorHere?_of_sign {operators : List Operator} {nesting : Nesting} {before : Text} (c : Char)
    (sign : nesting.isOutside = false ∨ endsOperand before = false) :
    operatorHere? operators nesting c before = none := by
  unfold operatorHere?
  rcases sign with inside | sign
  · simp [inside]
  · simp [sign]

theorem isOperatorChar_of_isPlain {c : Char} (plain : isPlain c = true) (noMinus : c ≠ '-') :
    isOperatorChar c = false := by
  by_contra operator
  have member : c ∈ ("+-*/%<>=!&|" : Text) := List.mem_of_elem_eq_true (Bool.of_not_eq_false operator)
  have other : ∀ d ∈ ("+-*/%<>=!&|" : Text), d = '-' ∨ isPlain d = false := by decide
  rcases other c member with minus | solid
  · exact noMinus minus
  · simp [plain] at solid

theorem splitRight?_plain_append (operators : List Operator) (depth : Int) {text : Text}
    (plain : ∀ c ∈ text, isPlain c = true ∧ c ≠ '-') (before passed : Text) :
    splitRight? operators ⟨none, depth⟩ (text.reverse ++ before) passed =
      splitRight? operators ⟨none, depth⟩ before (text ++ passed) := by
  induction text generalizing before with
  | nil => rfl
  | cons c text ih =>
    have here := plain c List.mem_cons_self
    rw [List.reverse_cons, List.append_assoc, List.singleton_append,
      ih (fun d member => plain d (List.mem_cons_of_mem c member)),
      splitRight?_of_none (operatorHere?_of_not_operator operators _ (isOperatorChar_of_isPlain here.1 here.2) _),
      Nesting.step_of_plain depth (isQuote_of_isPlain here.1) (ne_of_isPlain here.1 (by decide))
        (ne_of_isPlain here.1 (by decide))]
    rfl

theorem splitRight?_quotation (operators : List Operator) (depth : Int) {quote : Char} {body : Text}
    (closed : quote ∉ body) (before passed : Text) :
    splitRight? operators ⟨some quote, depth⟩ (body.reverse ++ before) passed =
      splitRight? operators ⟨some quote, depth⟩ before (body ++ passed) := by
  induction body generalizing before with
  | nil => rfl
  | cons c body ih =>
    have other : c ≠ quote := fun same => closed (same ▸ List.mem_cons_self)
    rw [List.reverse_cons, List.append_assoc, List.singleton_append,
      ih (fun member => closed (List.mem_cons_of_mem c member)),
      splitRight?_of_none (operatorHere?_of_sign c (.inl rfl))]
    simp only [Nesting.step, if_neg other]
    rfl

theorem isOperatorChar_of_isQuote {c : Char} (quotes : isQuote c = true) : isOperatorChar c = false := by
  rcases isQuote_iff.1 quotes with rfl | rfl <;> decide

theorem splitRight?_quoted_append (operators : List Operator) (depth : Int) {quote : Char} {body : Text}
    (quotes : isQuote quote = true) (closed : quote ∉ body) (before passed : Text) :
    splitRight? operators ⟨none, depth⟩ ((quote :: body ++ [quote]).reverse ++ before) passed =
      splitRight? operators ⟨none, depth⟩ before (quote :: body ++ [quote] ++ passed) := by
  have backwards : (quote :: body ++ [quote]).reverse ++ before = quote :: (body.reverse ++ quote :: before) := by
    simp
  rw [backwards, splitRight?_of_none (operatorHere?_of_not_operator operators _ (isOperatorChar_of_isQuote quotes) _)]
  simp only [Nesting.step, quotes, if_true]
  rw [splitRight?_quotation operators depth closed, splitRight?_of_none (operatorHere?_of_sign quote (.inl rfl))]
  simp [Nesting.step]

end Expression

end ComponentPages
