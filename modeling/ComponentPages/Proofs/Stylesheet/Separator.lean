import ComponentPages.Proofs.Stylesheet.Listing

/-!
Lists of selectors with commas inside brackets, as in `:is(a, b)`. The scanner splits the prelude of a rule at every comma,
also at those inside brackets. A list without such commas comes out with every selector scoped. A selector with one falls
into pieces, which are scoped one by one, and none of these lists is what the scoped list would be: its pieces have
brackets left open.
-/
namespace ComponentPages

namespace Stylesheet

/-- A text whose parentheses and square brackets nest. -/
inductive Nested : Text → Prop
  | done : Nested []
  | plain {c : Char} {rest : Text} : c ∉ ("[]()" : Text) → Nested rest → Nested (c :: rest)
  | brackets {opening closing : Char} {inside rest : Text} :
    opening = '(' ∧ closing = ')' ∨ opening = '[' ∧ closing = ']' → Nested inside → Nested rest →
      Nested (opening :: inside ++ closing :: rest)

/-- A selector as a list may hold it: its brackets nest, and commas stand inside brackets only. -/
structure Padded.IsListed (padded : Padded) : Prop where
  left : IsSpace padded.left
  right : IsSpace padded.right
  nonempty : padded.selector.text ≠ []
  trimmed : Text.trim padded.selector.text = padded.selector.text
  braceless : '\x7b' ∉ padded.selector.text ∧ '\x7d' ∉ padded.selector.text
  named : padded.selector.text.head? ≠ some '@'
  nested : Nested padded.selector.text
  commas : NoneOutside (· == ',') padded.selector.text
  plain : IsPlain padded.selector.text

/-- Items of a stylesheet, one behind the other, up to the end of the last block. -/
inductive Items : Text → Prop
  | done : Items []
  | item {head body rest : Text} :
    '\x7b' ∉ head → Braced body → Items rest → Items (head ++ '\x7b' :: (body ++ '\x7d' :: rest))

/-- A rule in a stylesheet: it stands behind other items, or in the block of an at-rule that holds rules. The last two texts
are what the scoped stylesheet has in front of the rule and behind it. -/
inductive Placed (scope rule : Text) : Text → Text → Text → Prop
  | here {front rest css : Text} :
    Items front → Pattern.erase comment css = front ++ (rule ++ rest) →
      Placed scope rule css (scopeItems scope front) (scopeItems scope rest)
  | inside {front head inner rest css before after : Text} :
    Items front → '\x7b' ∉ head → Braced inner → holdsRules (Text.trim head) inner = true →
      Placed scope rule inner before after →
      Pattern.erase comment css = front ++ (head ++ '\x7b' :: (inner ++ '\x7d' :: rest)) →
      Placed scope rule css (scopeItems scope front ++ Text.trim head ++ " \x7b\n" ++ before)
        (after ++ "\x7d\n" ++ scopeItems scope rest)

/-- The pieces that the scanner makes of a list of selectors. -/
def cuts (selectors : List Padded) : List Text := selectors.flatMap fun padded => Stylesheet.selectors padded.selector.text

/-- The two selectors that a piece is written as. -/
def emitted (scope piece : Text) : List Text := [attach scope piece, "[" ++ scope ++ "] " ++ piece]

/-! ### Brackets -/

theorem depthAfter_append (depth : Int) (first second : Text) :
    depthAfter depth (first ++ second) = depthAfter (depthAfter depth first) second := List.foldl_append

theorem depthAfter_of_free {text : Text} (free : ∀ c ∈ text, c ∉ ("[]()" : Text)) (depth : Int) :
    depthAfter depth text = depth := by
  induction text with
  | nil => rfl
  | cons c text ih =>
    have here := bracketDepth_of_not_mem (free c List.mem_cons_self) depth
    rw [depthAfter, List.foldl_cons, here]
    exact ih fun d member => free d (List.mem_cons_of_mem c member)

theorem exists_bracket {text : Text} {depth : Int} (moved : depthAfter depth text ≠ depth) :
    ∃ c ∈ text, c ∈ ("[]()" : Text) := by
  by_contra none
  exact moved (depthAfter_of_free (fun c member bracket => none ⟨c, member, bracket⟩) depth)

/-- Behind a pair of brackets the depth is what it was in front. -/
theorem depthAfter_brackets {opening closing : Char} (pair : opening = '(' ∧ closing = ')' ∨ opening = '[' ∧ closing = ']')
    {inside : Text} (within : ∀ depth, depthAfter depth inside = depth) (rest : Text) (depth : Int) :
    depthAfter depth (opening :: inside ++ closing :: rest) = depthAfter depth rest := by
  have opens : bracketDepth depth opening = depth + 1 := by rcases pair with ⟨rfl, rfl⟩ | ⟨rfl, rfl⟩ <;> rfl
  have closes : bracketDepth (depth + 1) closing = depth := by
    rcases pair with ⟨rfl, rfl⟩ | ⟨rfl, rfl⟩ <;> simp [bracketDepth]
  calc
    depthAfter depth (opening :: inside ++ closing :: rest) =
        depthAfter (bracketDepth (depthAfter (bracketDepth depth opening) inside) closing) rest := by
      rw [depthAfter_append]
      rfl
    _ = depthAfter depth rest := by rw [opens, within, closes]

theorem Nested.depthAfter_eq {text : Text} (nested : Nested text) (depth : Int) : depthAfter depth text = depth := by
  induction nested generalizing depth with
  | done => rfl
  | @plain c rest other _ ih =>
    rw [depthAfter, List.foldl_cons, bracketDepth_of_not_mem other]
    exact ih depth
  | brackets pair _ _ within ih => rw [depthAfter_brackets pair within, ih]

theorem nested_of_free {text : Text} (free : ∀ c ∈ text, c ∉ ("[]()" : Text)) : Nested text := by
  induction text with
  | nil => exact .done
  | cons c text ih =>
    exact .plain (free c List.mem_cons_self) (ih fun d member => free d (List.mem_cons_of_mem c member))

theorem Nested.append {first second : Text} (front : Nested first) (back : Nested second) : Nested (first ++ second) := by
  induction front with
  | done => exact back
  | plain other _ ih => exact .plain other ih
  | brackets pair inner _ _ ih =>
    rw [List.append_assoc, List.cons_append]
    exact .brackets pair inner ih

/-- A front of a text that begins with a pair of brackets ends in front of them, between them or behind them. -/
theorem brackets_split {opening closing : Char} {inside rest front back : Text}
    (whole : opening :: inside ++ closing :: rest = front ++ back) :
    front = [] ∨ (∃ part more, front = opening :: part ∧ inside = part ++ more) ∨
      ∃ part, front = opening :: inside ++ closing :: part ∧ rest = part ++ back := by
  cases front with
  | nil => exact .inl rfl
  | cons c part =>
    obtain ⟨rfl, tail⟩ := List.cons.inj whole
    obtain ⟨more, rfl, behind⟩ | ⟨more, rfl, -⟩ := List.append_eq_append_iff.1 tail
    · cases more with
      | nil => exact .inr (.inl ⟨inside, [], by simp, by simp⟩)
      | cons d more =>
        obtain ⟨rfl, later⟩ := List.cons.inj behind
        exact .inr (.inr ⟨more, by simp, later⟩)
    · exact .inr (.inl ⟨part, more, rfl, rfl⟩)

/-- Nowhere in a text whose brackets nest are more brackets closed than opened. -/
theorem Nested.le_depthAfter {text : Text} (nested : Nested text) {front back : Text} (whole : text = front ++ back)
    (depth : Int) : depth ≤ depthAfter depth front := by
  induction nested generalizing front back depth with
  | done =>
    obtain ⟨rfl, -⟩ := List.append_eq_nil_iff.1 whole.symm
    exact le_rfl
  | @plain c rest other _ ih =>
    cases front with
    | nil => exact le_rfl
    | cons d front =>
      obtain ⟨rfl, tail⟩ := List.cons.inj whole
      rw [depthAfter, List.foldl_cons, bracketDepth_of_not_mem other]
      exact ih tail depth
  | @brackets opening closing inside rest pair inner _ within ih =>
    rcases brackets_split whole with rfl | ⟨part, more, rfl, parts⟩ | ⟨part, rfl, parts⟩
    · exact le_rfl
    · have opens : bracketDepth depth opening = depth + 1 := by rcases pair with ⟨rfl, rfl⟩ | ⟨rfl, rfl⟩ <;> rfl
      have above := within parts (depth + 1)
      rw [depthAfter, List.foldl_cons, opens]
      exact (Int.le_of_lt (Int.lt_succ depth)).trans above
    · rw [depthAfter_brackets pair inner.depthAfter_eq]
      exact ih parts depth

/-- Outside brackets, a text whose brackets nest falls into two such texts. -/
theorem Nested.split {text : Text} (nested : Nested text) {front back : Text} (whole : text = front ++ back)
    (outside : depthAfter 0 front = 0) : Nested front ∧ Nested back := by
  induction nested generalizing front with
  | done =>
    obtain ⟨rfl, rfl⟩ := List.append_eq_nil_iff.1 whole.symm
    exact ⟨.done, .done⟩
  | @plain c rest other tail ih =>
    cases front with
    | nil =>
      rw [List.nil_append] at whole
      exact ⟨.done, whole ▸ .plain other tail⟩
    | cons d front =>
      obtain ⟨rfl, tail⟩ := List.cons.inj whole
      rw [depthAfter, List.foldl_cons, bracketDepth_of_not_mem other] at outside
      exact (ih tail outside).imp_left (.plain other)
  | @brackets opening closing inside rest pair inner tail _ ih =>
    rcases brackets_split whole with rfl | ⟨part, more, rfl, parts⟩ | ⟨part, rfl, parts⟩
    · rw [List.nil_append] at whole
      exact ⟨.done, whole ▸ .brackets pair inner tail⟩
    · have opens : bracketDepth 0 opening = 1 := by rcases pair with ⟨rfl, rfl⟩ | ⟨rfl, rfl⟩ <;> rfl
      have above := inner.le_depthAfter parts 1
      rw [depthAfter, List.foldl_cons, opens] at outside
      rw [depthAfter, outside] at above
      exact absurd above (by decide)
    · rw [depthAfter_brackets pair inner.depthAfter_eq] at outside
      exact (ih parts outside).imp_left (.brackets pair inner)

/-- Trimming takes no brackets away. -/
theorem depthAfter_trim (text : Text) (depth : Int) : depthAfter depth (Text.trim text) = depthAfter depth text := by
  have blank {space : Text} (is : IsSpace space) (depth : Int) : depthAfter depth space = depth := by
    refine depthAfter_of_free (fun c member bracket => ?_) depth
    have solid : ∀ c ∈ ("[]()" : Text), isBlank c = false := by decide
    exact absurd (is c member) (by rw [solid c bracket]; exact Bool.false_ne_true)
  obtain ⟨before, after, left, right, whole⟩ := Text.exists_eq_trim text
  conv => rhs; rw [whole]
  rw [depthAfter_append, depthAfter_append, blank left, blank right]

/-! ### Pieces -/

theorem selectors_trim (head : Text) : Stylesheet.selectors (Text.trim head) = Stylesheet.selectors head := by
  rw [Stylesheet.selectors, Text.map_trim_pieces (by decide), Stylesheet.selectors]

/-- The pieces of a list are those of its selectors. -/
theorem selectors_ruleHead {selectors : List Padded} (some : selectors ≠ [])
    (spaced : ∀ padded ∈ selectors, Text.trim padded.print = padded.selector.text) :
    Stylesheet.selectors (ruleHead selectors) = cuts selectors := by
  have parts : selectors.map Padded.print ≠ [] := fun nothing => some (List.map_eq_nil_iff.1 nothing)
  have each : ∀ padded ∈ selectors, ((Text.pieces ',' padded.print).map Text.trim).filter (· != []) =
      Stylesheet.selectors padded.selector.text := by
    intro padded member
    rw [← spaced padded member, selectors_trim, Stylesheet.selectors]
  rw [Stylesheet.selectors, ruleHead, Text.pieces_intercalate_flatMap parts, List.map_flatMap, List.filter_flatMap,
    List.flatMap_map, cuts]
  exact List.flatMap_congr each

/-- A text without commas is one piece. -/
theorem selectors_of_not_mem {text : Text} (free : ',' ∉ text) :
    Stylesheet.selectors text = [Text.trim text].filter (· != []) := by
  rw [Stylesheet.selectors, Text.pieces_of_not_mem free, List.map_singleton]

theorem selectors_append_cons {front : Text} (free : ',' ∉ front) (rest : Text) :
    Stylesheet.selectors (front ++ ',' :: rest) = [Text.trim front].filter (· != []) ++ Stylesheet.selectors rest := by
  rw [Stylesheet.selectors, Text.pieces_append free, List.map_cons, ← List.singleton_append, List.filter_append]
  rfl

/-- A text is read from comma to comma. -/
theorem comma_induction {holds : Text → Prop} (plain : ∀ text, ',' ∉ text → holds text)
    (comma : ∀ front rest, ',' ∉ front → holds rest → holds (front ++ ',' :: rest)) (text : Text) : holds text := by
  induction size : text.length using Nat.strongRecOn generalizing text with
  | ind length ih =>
    by_cases member : ',' ∈ text
    · obtain ⟨front, rest, rfl, free⟩ := List.eq_append_cons_of_mem member
      refine comma front rest free (ih rest.length ?_ rest rfl)
      simp only [List.length_append, List.length_cons] at size
      omega
    · exact plain text member

/-- A text with something in it beside commas and white space has a piece. -/
theorem selectors_ne_nil {text : Text} {c : Char} (member : c ∈ text) (solid : isBlank c = false) (other : c ≠ ',') :
    Stylesheet.selectors text ≠ [] := by
  have filled {front : Text} (inside : c ∈ front) : Text.trim front ≠ [] := by
    intro nothing
    obtain ⟨before, after, left, right, whole⟩ := Text.exists_eq_trim front
    rw [nothing, List.append_nil] at whole
    rw [whole] at inside
    have blank := (List.mem_append.1 inside).elim (left c) (right c)
    rw [solid] at blank
    cases blank
  induction text using comma_induction with
  | plain text free =>
    rw [selectors_of_not_mem free]
    simp [filled member]
  | comma front rest free ih =>
    rw [selectors_append_cons free]
    rcases List.mem_append.1 member with early | late
    · simp [filled early]
    · exact List.append_ne_nil_of_right_ne_nil _ (ih ((List.mem_cons.1 late).resolve_left other))

namespace Padded.IsListed

variable {padded : Padded} (listed : padded.IsListed)
include listed

theorem begins : padded.Begins := ⟨listed.left, listed.nonempty, listed.trimmed, listed.named⟩

theorem trim_print : Text.trim padded.print = padded.selector.text :=
  trim_padded listed.left listed.right listed.trimmed

/-- A selector without commas is its own piece. -/
theorem selectors_eq (free : ',' ∉ padded.selector.text) :
    Stylesheet.selectors padded.selector.text = [padded.selector.text] := by
  rw [selectors_of_not_mem free, listed.trimmed]
  simp [listed.nonempty]

/-- In front of a comma some bracket is open, and behind it that bracket is closed. -/
theorem open_at {front rest : Text} (whole : padded.selector.text = front ++ ',' :: rest) :
    depthAfter 0 front ≠ 0 ∧ ∃ c ∈ rest, c ∈ ("[]()" : Text) := by
  have plain := listed.plain
  rw [whole] at plain
  have inside : depthAfter 0 front ≠ 0 := fun zero =>
    absurd (listed.commas front ',' rest whole (plain.isOutside_iff.2 zero)) (by decide)
  refine ⟨inside, @exists_bracket rest (depthAfter 0 front) fun same => inside ?_⟩
  have closed := listed.nested.depthAfter_eq 0
  rw [whole, depthAfter_append, depthAfter, List.foldl_cons, bracketDepth_of_not_mem (by decide)] at closed
  rw [← same]
  exact closed

/-- A selector with a comma is cut in front of its first comma, where some bracket is open, and has more behind it. -/
theorem exists_cut (comma : ',' ∈ padded.selector.text) :
    ∃ front others, Stylesheet.selectors padded.selector.text = front :: others ∧ others ≠ [] ∧ depthAfter 0 front ≠ 0 := by
  obtain ⟨front, rest, whole, free⟩ := List.eq_append_cons_of_mem comma
  obtain ⟨inside, c, member, bracket⟩ := listed.open_at whole
  have filled : Text.trim front ≠ [] := by
    intro nothing
    rw [← depthAfter_trim, nothing] at inside
    exact inside rfl
  refine ⟨Text.trim front, Stylesheet.selectors rest, ?_, ?_, by rwa [depthAfter_trim]⟩
  · rw [whole, selectors_append_cons free]
    simp [filled]
  · have marks : ∀ c ∈ ("[]()" : Text), isBlank c = false ∧ c ≠ ',' := by decide
    exact selectors_ne_nil member (marks c bracket).1 (marks c bracket).2

end Padded.IsListed

theorem attach_text (selector : Selector) (plain : IsPlain selector.text) (scope : Text) :
    attach scope selector.text = selector.lead ++ selector.compound ++ "[" ++ scope ++ "]" ++ selector.pseudo := by
  have whole := scopedSelector_text selector plain scope
  rw [scopedSelector, Selector.confined] at whole
  exact List.append_cancel_right (List.append_cancel_right (List.append_cancel_right (List.append_cancel_right whole)))

/-- In front of its pseudo parts, no brackets of a selector are open. -/
theorem Padded.IsListed.depthAfter_compound {padded : Padded} (listed : padded.IsListed) :
    depthAfter 0 (padded.selector.lead ++ padded.selector.compound) = 0 := by
  have nested := listed.nested
  have plain := listed.plain
  generalize padded.selector = selector at nested plain ⊢
  obtain ⟨lead, compound, pseudo, led, last, bare, begins⟩ := selector
  simp only [Selector.text] at nested plain ⊢
  rcases begins with rfl | ⟨free, rest, rfl⟩
  · rw [List.append_nil] at nested
    exact nested.depthAfter_eq 0
  · exact plain.isOutside_iff.1 ((isOutside_append_iff (isOutside_of_led led)).2 free)

/-- The scope stands in a selector where no brackets are open. -/
theorem Padded.IsListed.nested_attach {padded : Padded} (listed : padded.IsListed) {scope : Text} (nests : Nested scope) :
    Nested (attach scope padded.selector.text) := by
  obtain ⟨front, back⟩ := listed.nested.split rfl listed.depthAfter_compound
  have whole : attach scope padded.selector.text =
      padded.selector.lead ++ padded.selector.compound ++ ('[' :: scope ++ ']' :: padded.selector.pseudo) := by
    rw [attach_text _ listed.plain]
    simp
  rw [whole]
  exact front.append (.brackets (.inr ⟨rfl, rfl⟩) nests back)

/-- No selector of a list has a comma just when the brackets of all that is written nest. -/
theorem nested_emitted_iff {selectors : List Padded} (listed : ∀ padded ∈ selectors, padded.IsListed) {scope : Text}
    (nests : Nested scope) :
    (∀ selector ∈ (cuts selectors).flatMap (emitted scope), Nested selector) ↔
      ∀ padded ∈ selectors, ',' ∉ padded.selector.text := by
  have descendant (piece : Text) (depth : Int) :
      depthAfter depth ("[" ++ scope ++ "] " ++ piece) = depthAfter depth piece := by
    have whole : ("[" : Text) ++ scope ++ "] " ++ piece = '[' :: scope ++ ']' :: ' ' :: piece := by
      rw [List.append_assoc]
      rfl
    rw [whole, depthAfter_brackets (.inr ⟨rfl, rfl⟩) nests.depthAfter_eq]
    rfl
  constructor
  · intro nested padded member comma
    obtain ⟨front, others, pieces, -, inside⟩ := (listed padded member).exists_cut comma
    have cut : front ∈ cuts selectors := List.mem_flatMap.2 ⟨padded, member, by rw [pieces]; exact List.mem_cons_self⟩
    have below := nested _ (List.mem_flatMap.2 ⟨front, cut, List.mem_cons_of_mem _ List.mem_cons_self⟩)
    exact inside ((descendant front 0).symm.trans (below.depthAfter_eq 0))
  · intro free selector member
    obtain ⟨cut, inCuts, written⟩ := List.mem_flatMap.1 member
    obtain ⟨padded, inList, piece⟩ := List.mem_flatMap.1 inCuts
    have here := listed padded inList
    rw [here.selectors_eq (free padded inList), List.mem_singleton] at piece
    subst piece
    rcases List.mem_cons.1 written with rfl | second
    · exact here.nested_attach nests
    · rw [List.mem_singleton.1 second]
      have scope' : Nested ("[" ++ scope ++ "] ") := .brackets (.inr ⟨rfl, rfl⟩) nests (.plain (by decide) .done)
      exact scope'.append here.nested

/-! ### Counting brackets -/

theorem splitPseudo_append_eq (depth : Int) (text : Text) :
    (splitPseudo depth text).1 ++ (splitPseudo depth text).2 = text := by
  induction text generalizing depth with
  | nil => rfl
  | cons c text ih =>
    rw [splitPseudo]
    split
    · rfl
    · rw [List.cons_append, ih]

/-- A scoped piece has the opening brackets of the piece twice, and those of the scope. -/
theorem count_scopedSelector (scope text : Text) :
    (scopedSelector scope text).count '[' = 2 * (text.count '[' + (1 + scope.count '[')) := by
  have attached : (attach scope text).count '[' = text.count '[' + (1 + scope.count '[') := by
    have parts := congrArg (List.count '[') (splitPseudo_append_eq 0 (text.drop (compoundStart 0 0 0 text)))
    have halves := congrArg (List.count '[') (List.take_append_drop (compoundStart 0 0 0 text) text)
    rw [List.count_append] at parts halves
    simp only [attach, List.count_append]
    have opening : ("[" : Text).count '[' = 1 := by decide
    have closing : ("]" : Text).count '[' = 0 := by decide
    omega
  simp only [scopedSelector, List.count_append, attached]
  have opening : (", [" : Text).count '[' = 1 := by decide
  have closing : ("] " : Text).count '[' = 0 := by decide
  omega

theorem count_intercalate (parts : List Text) :
    (List.intercalate ", " parts).count '[' = (parts.map (List.count '[')).sum := by
  induction parts with
  | nil => rfl
  | cons part parts ih =>
    cases parts with
    | nil => simp
    | cons next parts =>
      have separator : (", " : Text).count '[' = 0 := by decide
      rw [List.intercalate_cons_cons, List.count_append, List.count_append, ih, separator, Nat.add_zero,
        List.map_cons (l := next :: parts), List.sum_cons]

theorem count_trim (text : Text) : (Text.trim text).count '[' = text.count '[' := by
  have blank {space : Text} (is : IsSpace space) : space.count '[' = 0 :=
    List.count_eq_zero.2 (not_mem_of_isSpace is (by decide))
  obtain ⟨before, after, left, right, whole⟩ := Text.exists_eq_trim text
  conv => rhs; rw [whole]
  rw [List.count_append, List.count_append, blank left, blank right, Nat.zero_add, Nat.add_zero]

/-- The opening brackets of scoped pieces. -/
def weight (scope : Text) (pieces : List Text) : Nat := (pieces.map fun piece => (scopedSelector scope piece).count '[').sum

theorem weight_append (scope : Text) (first second : List Text) :
    weight scope (first ++ second) = weight scope first + weight scope second := by
  rw [weight, List.map_append, List.sum_append]
  rfl

/-- Every piece has the scope's brackets, beside those of the text that was cut. -/
theorem weight_selectors (scope text : Text) :
    weight scope (Stylesheet.selectors text) =
      2 * (text.count '[' + (Stylesheet.selectors text).length * (1 + scope.count '[')) := by
  have single (front : Text) : weight scope ([Text.trim front].filter (· != [])) =
      2 * (front.count '[' + ([Text.trim front].filter (· != [])).length * (1 + scope.count '[')) := by
    have brackets := count_trim front
    by_cases empty : Text.trim front = []
    · rw [empty] at brackets
      simp [empty, weight, ← brackets]
    · simp [empty, weight, count_scopedSelector, brackets]
  induction text using comma_induction with
  | plain text free =>
    rw [selectors_of_not_mem free]
    exact single text
  | comma front rest free ih =>
    rw [selectors_append_cons free, weight_append, single, ih, List.count_append, List.length_append,
      List.count_cons_of_ne (by decide)]
    ring

/-- Cut at a comma, a selector comes out with more brackets than it would have as a whole. -/
theorem Padded.IsListed.weight_lt {padded : Padded} (listed : padded.IsListed) (scope : Text) :
    (scopedSelector scope padded.selector.text).count '[' ≤ weight scope (Stylesheet.selectors padded.selector.text) ∧
      (',' ∈ padded.selector.text → (scopedSelector scope padded.selector.text).count '[' <
        weight scope (Stylesheet.selectors padded.selector.text)) := by
  rw [weight_selectors, count_scopedSelector]
  by_cases comma : ',' ∈ padded.selector.text
  · obtain ⟨front, others, pieces, more, -⟩ := listed.exists_cut comma
    have several : 1 < (Stylesheet.selectors padded.selector.text).length := by
      rw [pieces, List.length_cons]
      exact Nat.succ_lt_succ (List.length_pos_of_ne_nil more)
    have grows := Nat.mul_lt_mul_of_pos_right several (Nat.add_pos_left Nat.one_pos (scope.count '['))
    exact ⟨by omega, fun _ => by omega⟩
  · rw [listed.selectors_eq comma]
    exact ⟨by simp, fun member => absurd member comma⟩

/-- The pieces of a list are written like its scoped selectors just when none of them has a comma. -/
theorem intercalate_cuts_iff {selectors : List Padded} (listed : ∀ padded ∈ selectors, padded.IsListed) (scope : Text) :
    List.intercalate ", " ((cuts selectors).map (scopedSelector scope)) =
        List.intercalate ", " (selectors.map fun padded => padded.selector.confined scope) ↔
      ∀ padded ∈ selectors, ',' ∉ padded.selector.text := by
  have confined : (selectors.map fun padded => padded.selector.confined scope) =
      selectors.map fun padded => scopedSelector scope padded.selector.text :=
    List.map_congr_left fun padded member => (scopedSelector_text padded.selector (listed padded member).plain scope).symm
  rw [confined]
  constructor
  · intro same padded member comma
    have counts := congrArg (List.count '[') same
    have heavier : ((selectors.map fun padded => (scopedSelector scope padded.selector.text).count '[').sum) <
        (selectors.map fun padded => weight scope (Stylesheet.selectors padded.selector.text)).sum :=
      List.sum_lt_sum _ _ (fun other inList => ((listed other inList).weight_lt scope).1)
        ⟨padded, member, ((listed padded member).weight_lt scope).2 comma⟩
    have total : weight scope (cuts selectors) =
        (selectors.map fun padded => weight scope (Stylesheet.selectors padded.selector.text)).sum := by
      clear same counts heavier confined listed member
      induction selectors with
      | nil => rfl
      | cons first others ih => rw [cuts, List.flatMap_cons, weight_append, List.map_cons, List.sum_cons, ← ih, cuts]
    rw [count_intercalate, count_intercalate, List.map_map, List.map_map] at counts
    rw [← total] at heavier
    exact absurd counts (Nat.ne_of_gt heavier)
  · intro free
    have whole : cuts selectors = selectors.map fun padded => padded.selector.text := by
      rw [cuts, List.flatMap_congr fun padded member => (listed padded member).selectors_eq (free padded member)]
      exact List.map_eq_flatMap.symm
    rw [whole, List.map_map]
    rfl

/-! ### Rules in their places -/

/-- Items are scoped apart from what follows them. -/
theorem scopeItems_append {front : Text} (items : Items front) (scope css : Text) :
    scopeItems scope (front ++ css) = scopeItems scope front ++ scopeItems scope css := by
  induction items with
  | done => rw [List.nil_append, scopeItems_of_not_mem List.not_mem_nil, List.nil_append]
  | @item head body rest free braced _ ih =>
    have whole : head ++ '\x7b' :: (body ++ '\x7d' :: rest) ++ css = head ++ '\x7b' :: (body ++ '\x7d' :: (rest ++ css)) := by
      simp
    rw [whole, scopeItems_item free braced, scopeItems_item free braced, ih, List.append_assoc]

/-- A rule that comes out in one way at the front of all items comes out so in its place. -/
theorem Placed.confine_eq {scope rule css before after output : Text} (placed : Placed scope rule css before after)
    (yields : ∀ rest, scopeItems scope (rule ++ rest) = output ++ scopeItems scope rest) :
    confine css scope = before ++ (output ++ after) := by
  induction placed with
  | here items erased => rw [confine, erased, scopeItems_append items, yields]
  | @inside front head inner rest css before after items free braced holds _ erased ih =>
    have inner' : scopeItems scope (Pattern.erase comment inner) = before ++ (output ++ after) := ih
    rw [confine, erased, scopeItems_append items, scopeItems_item free braced, if_pos holds, inner', Stylesheet.written]
    simp

/-- The prelude of a rule has no brace. -/
theorem not_mem_ruleHead {selectors : List Padded} (listed : ∀ padded ∈ selectors, padded.IsListed) :
    '\x7b' ∉ ruleHead selectors := by
  refine not_mem_intercalate (by decide) (List.forall_mem_map.2 fun padded member => ?_)
  have here := listed padded member
  exact List.not_mem_append (List.not_mem_append (not_mem_of_isSpace here.left (by decide)) here.braceless.1)
    (not_mem_of_isSpace here.right (by decide))

/-- What a rule is written with, as one list. -/
theorem intercalate_emitted (scope : Text) (pieces : List Text) :
    List.intercalate ", " (pieces.flatMap (emitted scope)) = List.intercalate ", " (pieces.map (scopedSelector scope)) := by
  have single (piece : Text) : List.intercalate ", " (emitted scope piece) = scopedSelector scope piece := by
    simp [emitted, scopedSelector]
  induction pieces with
  | nil => rfl
  | cons piece pieces ih =>
    cases pieces with
    | nil => rw [List.flatMap_singleton, List.map_singleton, List.intercalate_singleton, single]
    | cons next pieces =>
      rw [List.map_cons, List.map_cons, List.intercalate_cons_cons, ← List.map_cons, ← ih, ← single piece]
      simp [emitted]

/-- A rule comes out with the pieces of its selectors scoped, one by one and in order. These are its selectors, and the
brackets of all that is written nest, just when no selector has a comma. -/
theorem confine_pieces {selectors : List Padded} (some : selectors ≠ []) (listed : ∀ padded ∈ selectors, padded.IsListed)
    {body : Text} (braced : Braced body) {scope css before after : Text}
    (placed : Placed scope (ruleHead selectors ++ '\x7b' :: (body ++ ['\x7d'])) css before after) :
    confine css scope =
        before ++ (written (List.intercalate ", " ((cuts selectors).flatMap (emitted scope))) body ++ after) ∧
      (confine css scope =
          before ++
            (written (List.intercalate ", " (selectors.map fun padded => padded.selector.confined scope)) body ++ after) ↔
        ∀ padded ∈ selectors, ',' ∉ padded.selector.text) ∧
      (Nested scope → ((∀ selector ∈ (cuts selectors).flatMap (emitted scope), Nested selector) ↔
        ∀ padded ∈ selectors, ',' ∉ padded.selector.text)) := by
  have yields (rest : Text) : scopeItems scope (ruleHead selectors ++ '\x7b' :: (body ++ ['\x7d']) ++ rest) =
      written (List.intercalate ", " ((cuts selectors).map (scopedSelector scope))) body ++ scopeItems scope rest := by
    have pieces := selectors_ruleHead some fun padded member => (listed padded member).trim_print
    have rule := scopeItems_prelude some (fun padded member => (listed padded member).begins) (not_mem_ruleHead listed) braced
      scope rest
    rw [← ruleHead, selectors_trim, pieces] at rule
    rw [← rule, List.append_assoc, List.cons_append, List.append_assoc, List.singleton_append]
  have whole := placed.confine_eq yields
  rw [intercalate_emitted]
  refine ⟨whole, ?_, nested_emitted_iff listed⟩
  rw [whole, List.append_cancel_left_eq, List.append_cancel_right_eq, written, written, List.append_assoc, List.append_assoc,
    List.append_assoc, List.append_assoc, List.append_cancel_right_eq]
  exact intercalate_cuts_iff listed scope

/-- The selectors of the rule in `printSheet`. -/
def printSelectors : List Padded :=
  [⟨"  ", ⟨"u ", "q", ":not(.x, .y)", .inr ⟨"u", ' ', rfl, rfl, rfl⟩, by decide, by decide, .inr ⟨rfl, "not(.x, .y)", rfl⟩⟩,
      []⟩,
    ⟨" ", ⟨"i > ", [], ":is(u)", .inr ⟨"i >", ' ', rfl, rfl, rfl⟩, by decide, by decide, .inr ⟨rfl, "is(u)", rfl⟩⟩, []⟩]

/-- A stylesheet with a rule for print, which has a comma in parentheses. -/
def printSheet : Text := "b \x7b c: d \x7d\n@media print \x7b /* e */ u q:not(.x, .y), i > :is(u)\x7b f: g \x7d\x7d"

theorem confine_pieces_printSheet :
    confine printSheet "data-x" =
      ("b[data-x], [data-x] b \x7b c: d \x7d\n@media print \x7b\n" ++ "u q[data-x]:not(.x, [data-x] u q:not(.x, " ++
        ".y)[data-x], [data-x] .y), i > [data-x]:is(u), [data-x] i > :is(u) \x7b f: g \x7d\n\x7d\n" : Text) ∧
      ¬ ∀ selector ∈ (cuts printSelectors).flatMap (emitted "data-x"), Nested selector := by
  have free {text : Text} (none : ∀ c ∈ text, c ∉ ("[]()" : Text)) : Nested text := nested_of_free none
  have listed : ∀ padded ∈ printSelectors, padded.IsListed := by
    intro padded member
    rcases List.mem_cons.1 member with rfl | later
    · have nested : Nested ("u q:not" ++ ('(' :: ".x, .y" ++ ')' :: [])) :=
        (free (by decide)).append (.brackets (.inl ⟨rfl, rfl⟩) (free (by decide)) .done)
      exact ⟨by decide, by decide, by decide, by decide, by decide, by decide, nested, by decide, by decide⟩
    · rw [List.mem_singleton.1 later]
      have nested : Nested ("i > :is" ++ ('(' :: "u" ++ ')' :: [])) :=
        (free (by decide)).append (.brackets (.inl ⟨rfl, rfl⟩) (free (by decide)) .done)
      exact ⟨by decide, by decide, by decide, by decide, by decide, by decide, nested, by decide, by decide⟩
  have within : Placed "data-x" (ruleHead printSelectors ++ '\x7b' :: (" f: g " ++ ['\x7d']))
      "  u q:not(.x, .y), i > :is(u)\x7b f: g \x7d" _ _ :=
    @Placed.here _ _ [] [] _ .done (by cbv)
  have item : Items ("b " ++ '\x7b' :: (" c: d " ++ '\x7d' :: [])) :=
    .item (by decide) (braced_of_not_mem (by decide) (by decide)) .done
  have braced : Braced (("  u q:not(.x, .y), i > :is(u)" : Text) ++ '\x7b' :: (" f: g " ++ '\x7d' :: [])) :=
    .item (by decide) (by decide) (braced_of_not_mem (by decide) (by decide)) .done
  have placed := @Placed.inside _ _ _ "\n@media print " _ [] printSheet _ _ item (by decide) braced
    (by decide +kernel) within (by cbv)
  obtain ⟨output, -, nested⟩ := confine_pieces (by decide) listed (braced_of_not_mem (by decide) (by decide)) placed
  have comma : ',' ∈ (printSelectors[0]).selector.text := by decide
  refine ⟨?_, fun all => (nested (free (by decide))).1 all _ List.mem_cons_self comma⟩
  rw [output]
  decide +kernel

end Stylesheet

end ComponentPages
