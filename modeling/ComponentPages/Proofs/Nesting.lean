import ComponentPages.Proofs.Text
import ComponentPages.Text.Nesting

/-!
Reading past quotations and brackets, for any pair of brackets. What closes an open bracket is found whatever stands
behind it, and text whose brackets nest outside its quotations leaves the number of open brackets as it is.
-/
namespace ComponentPages

namespace Nesting

variable {opening closing : Char}

/-- A character that is neither a quote nor a bracket leaves the nesting as it is. -/
theorem step_of_plain {c : Char} (depth : Int) (noQuote : isQuote c = false) (noOpening : c ≠ opening)
    (noClosing : c ≠ closing) : step opening closing ⟨none, depth⟩ c = ⟨none, depth⟩ := by
  simp [step, noQuote, noOpening, noClosing]

theorem close?_of_ne {nesting : Nesting} {c : Char} (goes : c ≠ closing ∨ nesting ≠ ⟨none, 1⟩) (rest : Text) :
    close? opening closing nesting (c :: rest) =
      (close? opening closing (nesting.step opening closing c) rest).map (prepend [c]) := by
  have open_ : ¬(c = closing ∧ nesting = ⟨none, 1⟩) := by
    rintro ⟨closes, outermost⟩
    rcases goes with other | inner
    · exact other closes
    · exact inner outermost
  rw [close?, if_neg open_]
  rfl

/-- The bracket that closes is found by what stands before it. -/
theorem close?_append {nesting : Nesting} {text inside after : Text}
    (closed : close? opening closing nesting text = some (inside, after)) (more : Text) :
    close? opening closing nesting (inside ++ closing :: more) = some (inside, more) := by
  induction text generalizing nesting inside with
  | nil => cases closed
  | cons c text ih =>
    rw [close?] at closed
    split at closed
    · next here =>
      cases closed
      rw [List.nil_append, close?, if_pos ⟨rfl, here.2⟩]
    · next other =>
      obtain ⟨⟨before, behind⟩, later, same⟩ := Option.map_eq_some_iff.1 closed
      cases same
      rw [List.cons_append, close?, if_neg other, ih later]
      rfl

theorem close?_flat_append (depth : Int) {text : Text} (flat : ∀ c ∈ text, isQuote c = false ∧ c ≠ opening ∧ c ≠ closing)
    (rest : Text) :
    close? opening closing ⟨none, depth⟩ (text ++ rest) =
      (close? opening closing ⟨none, depth⟩ rest).map (prepend text) := by
  induction text with
  | nil => exact (map_prepend_nil _).symm
  | cons c text ih =>
    obtain ⟨noQuote, noOpening, noClosing⟩ := flat c List.mem_cons_self
    rw [List.cons_append, close?_of_ne (.inl noClosing), step_of_plain depth noQuote noOpening noClosing,
      ih fun d member => flat d (List.mem_cons_of_mem c member), map_prepend_prepend]
    rfl

/-- In a quotation nothing counts up to its closing quote. -/
theorem close?_quotation (depth : Int) {quote : Char} {body : Text} (free : quote ∉ body) (rest : Text) :
    close? opening closing ⟨some quote, depth⟩ (body ++ quote :: rest) =
      (close? opening closing ⟨none, depth⟩ rest).map (prepend (body ++ [quote])) := by
  have inner : (⟨some quote, depth⟩ : Nesting) ≠ ⟨none, 1⟩ := by simp
  induction body with
  | nil =>
    rw [List.nil_append, close?_of_ne (.inr inner)]
    simp [step]
  | cons c body ih =>
    have other : c ≠ quote := fun same => free (same ▸ List.mem_cons_self)
    rw [List.cons_append, close?_of_ne (.inr inner)]
    simp only [step, if_neg other]
    rw [ih fun member => free (List.mem_cons_of_mem c member), map_prepend_prepend]
    rfl

theorem close?_quoted_append (depth : Int) {quote : Char} {body : Text} (noQuote : isQuote closing = false)
    (quotes : isQuote quote = true) (free : quote ∉ body) (rest : Text) :
    close? opening closing ⟨none, depth⟩ (quote :: body ++ [quote] ++ rest) =
      (close? opening closing ⟨none, depth⟩ rest).map (prepend (quote :: body ++ [quote])) := by
  have other : quote ≠ closing := by
    rintro rfl
    rw [noQuote] at quotes
    cases quotes
  rw [List.append_assoc, List.cons_append, List.singleton_append, close?_of_ne (.inl other)]
  simp only [step, quotes, if_true]
  rw [close?_quotation depth free, map_prepend_prepend]
  rfl

/-- Texts whose brackets nest outside their quotations, which are all closed. -/
inductive Balanced (opening closing : Char) : Text → Prop
  | done : Balanced opening closing []
  | plain {c : Char} {rest : Text} (flat : isQuote c = false ∧ c ≠ opening ∧ c ≠ closing)
    (behind : Balanced opening closing rest) : Balanced opening closing (c :: rest)
  | quotation {quote : Char} {body rest : Text} (quotes : isQuote quote = true) (free : quote ∉ body)
    (behind : Balanced opening closing rest) : Balanced opening closing (quote :: body ++ quote :: rest)
  | brackets {inside rest : Text} (within : Balanced opening closing inside) (behind : Balanced opening closing rest) :
    Balanced opening closing (opening :: inside ++ closing :: rest)

theorem Balanced.of_flat {text : Text} (flat : ∀ c ∈ text, isQuote c = false ∧ c ≠ opening ∧ c ≠ closing) :
    Balanced opening closing text := by
  induction text with
  | nil => exact .done
  | cons c text ih => exact .plain (flat c List.mem_cons_self) (ih fun d member => flat d (List.mem_cons_of_mem c member))

section Pair

variable (pair : isQuote opening = false ∧ isQuote closing = false ∧ closing ≠ opening)
include pair

/-- No bracket of a balanced text closes an outer one. -/
theorem close?_balanced {text : Text} (balanced : Balanced opening closing text) {depth : Int} (inside : 0 < depth)
    (rest : Text) :
    close? opening closing ⟨none, depth⟩ (text ++ rest) =
      (close? opening closing ⟨none, depth⟩ rest).map (prepend text) := by
  induction balanced generalizing depth rest with
  | done => exact (map_prepend_nil _).symm
  | @plain c text flat _ ih =>
    have here := close?_flat_append depth (List.forall_mem_singleton.2 flat) (text ++ rest)
    rw [List.singleton_append] at here
    rw [List.cons_append, here, ih inside, map_prepend_prepend]
    rfl
  | @quotation quote body text quotes free _ ih =>
    have whole : quote :: body ++ quote :: text ++ rest = quote :: body ++ [quote] ++ (text ++ rest) := by simp
    rw [whole, close?_quoted_append depth pair.2.1 quotes free, ih inside, map_prepend_prepend]
    simp
  | @brackets within text _ _ ihWithin ihBehind =>
    have opens (behind : Text) : close? opening closing ⟨none, depth⟩ (opening :: behind) =
        (close? opening closing ⟨none, depth + 1⟩ behind).map (prepend [opening]) := by
      rw [close?_of_ne (.inl pair.2.2.symm)]
      simp [step, pair.1]
    have closes (behind : Text) : close? opening closing ⟨none, depth + 1⟩ (closing :: behind) =
        (close? opening closing ⟨none, depth⟩ behind).map (prepend [closing]) := by
      have inner : (⟨none, depth + 1⟩ : Nesting) ≠ ⟨none, 1⟩ := by
        intro same
        have depths := congrArg Nesting.depth same
        dsimp only at depths
        omega
      rw [close?_of_ne (.inr inner)]
      simp [step, pair.2.1, pair.2.2]
    rw [List.append_assoc, List.cons_append, List.cons_append, opens, ihWithin (by omega), closes, ihBehind inside,
      map_prepend_prepend, map_prepend_prepend, map_prepend_prepend]
    simp

/-- The bracket behind a balanced text closes it. -/
theorem close?_body {text : Text} (balanced : Balanced opening closing text) (rest : Text) :
    close? opening closing ⟨none, 1⟩ (text ++ closing :: rest) = some (text, rest) := by
  rw [close?_balanced pair balanced Int.zero_lt_one, close?, if_pos ⟨rfl, rfl⟩]
  simp [prepend]

end Pair

end Nesting

end ComponentPages
