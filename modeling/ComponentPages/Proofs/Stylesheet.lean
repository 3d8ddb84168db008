import ComponentPages.Stylesheet
import ComponentPages.Proofs.Markup.Block
import ComponentPages.Proofs.Pattern
import ComponentPages.Proofs.Text

/-!
Scoped stylesheets, rule by rule. A selector falls into its last compound, which may end in pseudo parts, and what leads
up to it; the scope is attached between the compound and its pseudo parts. A stylesheet is a tree of rules and at-rules,
some of which hold rules again; every rule of it, however deep, comes out with its selectors scoped, and everything else
as it is.

A backslash in a selector escapes the character behind it, which is then part of a name, and brackets in quotes are no
brackets. The scanner of selectors counts brackets and knows of neither, so the results are about plain selectors, without
escapes and without brackets in quotes.
-/
namespace ComponentPages

namespace Stylesheet

/-! ### Selectors -/

/-- Where a reader of a selector stands: how many brackets are open, which quotes are, and whether the next character is
escaped. -/
structure Reach where
  depth : Int := 0
  quote : Option Char := none
  escaped : Bool := false
deriving DecidableEq

def Reach.step (reach : Reach) (c : Char) : Reach :=
  if reach.escaped then { reach with escaped := false }
  else if c = '\\' then { reach with escaped := true }
  else if reach.quote = some c then { reach with quote := none }
  else if reach.quote.isSome then reach
  else if c = '"' ∨ c = '\'' then { reach with quote := some c }
  else { reach with depth := bracketDepth reach.depth c }

/-- Where a reader stands behind a text. -/
def reach (text : Text) : Reach := text.foldl Reach.step {}

/-- A character behind the given text is outside brackets and quotes, and not escaped. -/
def IsOutside (before : Text) : Prop := reach before = {}

/-- No character of a class stands outside brackets. -/
def NoneOutside (class_ : Char → Bool) (text : Text) : Prop :=
  ∀ before c after, text = before ++ c :: after → IsOutside before → class_ c = false

/-- A selector: what leads up to its last compound, that compound, and its pseudo parts. -/
structure Selector where
  lead : Text
  compound : Text
  pseudo : Text
  led : lead = [] ∨ ∃ before c, lead = before ++ [c] ∧ IsOutside before ∧ isCombinator c = true
  last : NoneOutside isCombinator (compound ++ pseudo)
  bare : NoneOutside (· == ':') compound
  begins : pseudo = [] ∨ IsOutside compound ∧ ∃ rest, pseudo = ':' :: rest

/-- What stands behind each part of a text can be looked up by its place. -/
theorem forall_split_iff {text : Text} (holds : Text → Char → Prop) :
    (∀ before c after, text = before ++ c :: after → holds before c) ↔
      ∀ i : Fin text.length, holds (text.take i) (text.get i) := by
  constructor
  · intro every i
    exact every _ _ (text.drop (i + 1)) (by rw [List.get_eq_getElem, ← List.drop_eq_getElem_cons i.2, List.take_append_drop])
  · rintro every before c after rfl
    have here := every ⟨before.length, by simp⟩
    simpa using here

instance (before : Text) : Decidable (IsOutside before) := inferInstanceAs (Decidable (reach before = {}))

instance (class_ : Char → Bool) (text : Text) : Decidable (NoneOutside class_ text) :=
  decidable_of_iff _ (forall_split_iff fun before c => IsOutside before → class_ c = false).symm

namespace Selector

def text (selector : Selector) : Text := selector.lead ++ selector.compound ++ selector.pseudo

/-- The selector that is one compound. -/
def ofCompound (compound : Text) (last : NoneOutside isCombinator compound) (bare : NoneOutside (· == ':') compound) :
    Selector :=
  ⟨[], compound, [], .inl rfl, by rwa [List.append_nil], bare, .inl rfl⟩

/-- The selector with the scope attached to its last compound, and the selector below an element with the scope. -/
def confined (selector : Selector) (scope : Text) : Text :=
  selector.lead ++ selector.compound ++ "[" ++ scope ++ "]" ++ selector.pseudo ++ ", [" ++ scope ++ "] " ++ selector.text

end Selector

theorem noneOutside_nil (class_ : Char → Bool) : NoneOutside class_ [] := by
  intro before c after whole
  simp at whole

theorem NoneOutside.concat {class_ : Char → Bool} {text : Text} {c : Char} (none : NoneOutside class_ text)
    (here : IsOutside text → class_ c = false) : NoneOutside class_ (text ++ [c]) := by
  intro before d after whole outside
  rcases List.eq_nil_or_concat' after with rfl | ⟨after, last, rfl⟩
  · obtain ⟨rfl, same⟩ := List.append_inj' whole rfl
    rw [← List.singleton_inj.1 same]
    exact here outside
  · have whole' : text ++ [c] = (before ++ d :: after) ++ [last] := by rw [whole]; simp
    exact none before d after (List.append_inj' whole' rfl).1 outside

theorem reach_append {lead : Text} (outside : IsOutside lead) (text : Text) : reach (lead ++ text) = reach text := by
  rw [reach, List.foldl_append, ← reach, outside, reach]

/-- What stands behind a lead is outside brackets just where it is on its own. -/
theorem isOutside_append_iff {lead text : Text} (outside : IsOutside lead) : IsOutside (lead ++ text) ↔ IsOutside text := by
  rw [IsOutside, reach_append outside, IsOutside]

theorem isOutside_of_led {lead : Text}
    (led : lead = [] ∨ ∃ before c, lead = before ++ [c] ∧ IsOutside before ∧ isCombinator c = true) : IsOutside lead := by
  rcases led with rfl | ⟨before, c, rfl, outside, combines⟩
  · rfl
  · rw [isOutside_append_iff outside]
    have listed := List.mem_of_elem_eq_true combines
    fin_cases listed <;> rfl

/-- Every text is a selector: its last compound begins behind the last combinator outside brackets. -/
theorem exists_selector (text : Text) : ∃ selector : Selector, selector.text = text := by
  induction text using List.reverseRecOn with
  | nil => exact ⟨⟨[], [], [], .inl rfl, noneOutside_nil _, noneOutside_nil _, .inl rfl⟩, rfl⟩
  | append_singleton text c ih =>
    obtain ⟨⟨lead, compound, pseudo, led, last, bare, begins⟩, rfl⟩ := ih
    have outside := isOutside_of_led led
    change ∃ selector : Selector, selector.text = lead ++ compound ++ pseudo ++ [c]
    by_cases combines : IsOutside (lead ++ compound ++ pseudo) ∧ isCombinator c = true
    · exact ⟨⟨lead ++ compound ++ pseudo ++ [c], [], [], .inr ⟨_, c, rfl, combines⟩, noneOutside_nil _, noneOutside_nil _,
        .inl rfl⟩, by simp [Selector.text]⟩
    · have longer : NoneOutside isCombinator (compound ++ pseudo ++ [c]) := by
        refine last.concat fun here => ?_
        rw [List.append_assoc, isOutside_append_iff outside] at combines
        exact Bool.eq_false_iff.2 fun is => combines ⟨here, is⟩
      by_cases begun : pseudo = []
      · subst begun
        rw [List.append_nil] at longer
        by_cases colon : IsOutside compound ∧ c = ':'
        · obtain ⟨free, rfl⟩ := colon
          exact ⟨⟨lead, compound, [':'], led, longer, bare, .inr ⟨free, [], rfl⟩⟩, by simp [Selector.text]⟩
        · have bare' : NoneOutside (· == ':') (compound ++ [c]) :=
            bare.concat fun here => by simpa using fun same => colon ⟨here, same⟩
          exact ⟨⟨lead, compound ++ [c], [], led, by rwa [List.append_nil], bare', .inl rfl⟩, by simp [Selector.text]⟩
      · obtain ⟨free, rest, rfl⟩ := begins.resolve_left begun
        refine ⟨⟨lead, compound, ':' :: rest ++ [c], led, ?_, bare, .inr ⟨free, rest ++ [c], rfl⟩⟩, by simp [Selector.text]⟩
        rwa [← List.append_assoc]

/-! ### Attaching the scope -/

/-- How many brackets are open behind a text. -/
def depthAfter (depth : Int) (text : Text) : Int := text.foldl bracketDepth depth

/-- A selector that can be read by its brackets alone: it has no escapes, its quotes are inside brackets, and no bracket is
in quotes. -/
@[mk_iff]
structure IsPlain (text : Text) : Prop where
  unescaped : '\\' ∉ text
  quotes : ∀ before c after, text = before ++ c :: after → (reach before).quote ≠ none →
    (reach before).depth ≠ 0 ∧ c ∉ ("[]()" : Text)

theorem isPlain_iff_get {text : Text} :
    IsPlain text ↔ '\\' ∉ text ∧ ∀ i : Fin text.length, (reach (text.take i)).quote ≠ none →
      (reach (text.take i)).depth ≠ 0 ∧ text.get i ∉ ("[]()" : Text) :=
  (isPlain_iff text).trans (and_congr_right' (forall_split_iff _))

instance (text : Text) : Decidable (IsPlain text) := decidable_of_iff _ isPlain_iff_get.symm

theorem bracketDepth_of_not_mem {c : Char} (other : c ∉ ("[]()" : Text)) (depth : Int) : bracketDepth depth c = depth := by
  have ne {d : Char} (listed : d ∈ ("[]()" : Text)) : (c == d) = false :=
    beq_eq_false_iff_ne.2 fun same => other (same ▸ listed)
  have opens : (c == '[' || c == '(') = false := by rw [ne (by decide), ne (by decide)]; rfl
  have closes : (c == ']' || c == ')') = false := by rw [ne (by decide), ne (by decide)]; rfl
  rw [bracketDepth, if_neg (by simp [opens]), if_neg (by simp [closes])]

theorem depthAfter_concat (text : Text) (c : Char) :
    depthAfter 0 (text ++ [c]) = bracketDepth (depthAfter 0 text) c := List.foldl_concat ..

/-- In a plain selector, a reader counts brackets and follows quotes. -/
theorem IsPlain.reach_eq {before after : Text} (plain : IsPlain (before ++ after)) :
    (reach before).depth = depthAfter 0 before ∧ (reach before).escaped = false := by
  induction before using List.reverseRecOn generalizing after with
  | nil => exact ⟨rfl, rfl⟩
  | append_singleton before c ih =>
    rw [List.append_assoc, List.singleton_append] at plain
    obtain ⟨counted, unescaped⟩ := ih plain
    have other : c ≠ '\\' := by
      rintro rfl
      exact plain.unescaped (by simp)
    have quotes := plain.quotes before c after rfl
    have stepped : reach (before ++ [c]) = (reach before).step c := List.foldl_concat ..
    rw [stepped, depthAfter_concat, ← counted]
    generalize reach before = reached at unescaped quotes
    obtain ⟨depth, quote, escaped⟩ := reached
    subst unescaped
    rw [Reach.step, if_neg Bool.false_ne_true, if_neg other]
    cases quote with
    | none =>
      rw [if_neg (by simp), if_neg (by simp)]
      split
      · next begins =>
        refine ⟨(bracketDepth_of_not_mem ?_ _).symm, rfl⟩
        rcases begins with rfl | rfl <;> decide
      · exact ⟨rfl, rfl⟩
    | some quote =>
      have same := bracketDepth_of_not_mem (quotes (by simp)).2 depth
      split
      · exact ⟨same.symm, rfl⟩
      · exact ⟨same.symm, rfl⟩

theorem IsPlain.isOutside_iff {before after : Text} {c : Char} (plain : IsPlain (before ++ c :: after)) :
    IsOutside before ↔ depthAfter 0 before = 0 := by
  obtain ⟨counted, unescaped⟩ := plain.reach_eq
  constructor
  · intro outside
    rw [← counted, show reach before = {} from outside]
  · intro zero
    have unquoted : (reach before).quote = none := by
      by_contra quoted
      exact (plain.quotes before c after rfl quoted).1 (counted.trans zero)
    change reach before = ⟨0, none, false⟩
    rw [← zero, ← counted, ← unquoted, ← unescaped]

/-- What stands behind the lead of a plain selector is plain. -/
theorem IsPlain.of_lead {lead text : Text} (plain : IsPlain (lead ++ text)) (outside : IsOutside lead) : IsPlain text := by
  refine ⟨fun member => plain.unescaped (List.mem_append_right lead member), fun before c after whole quoted => ?_⟩
  rw [← reach_append outside] at quoted ⊢
  exact plain.quotes (lead ++ before) c after (by rw [whole, List.append_assoc]) quoted

theorem compoundStart_append (offset : Nat) (depth : Int) (start : Nat) (front behind : Text) :
    compoundStart offset depth start (front ++ behind) =
      compoundStart (offset + front.length) (depthAfter depth front) (compoundStart offset depth start front) behind := by
  induction front generalizing offset depth start with
  | nil => rfl
  | cons c front ih =>
    rw [List.cons_append, compoundStart, compoundStart, ih, List.length_cons]
    have next : offset + 1 + front.length = offset + (front.length + 1) := by omega
    rw [next]
    rfl

theorem compoundStart_of_none {depth : Int} {text : Text}
    (none : ∀ before c after, text = before ++ c :: after → depthAfter depth before = 0 → isCombinator c = false)
    (offset start : Nat) : compoundStart offset depth start text = start := by
  induction text generalizing offset depth with
  | nil => rfl
  | cons c text ih =>
    have here : (decide (depth = 0) && isCombinator c) = false := by
      by_cases outside : depth = 0
      · rw [none [] c text rfl outside, Bool.and_false]
      · rw [decide_eq_false outside, Bool.false_and]
    rw [compoundStart, here, if_neg Bool.false_ne_true]
    exact ih (fun before d after whole => none (c :: before) d after (by rw [whole, List.cons_append])) (offset + 1)

theorem splitPseudo_append {depth : Int} {compound pseudo : Text}
    (bare : ∀ before c after, compound = before ++ c :: after → depthAfter depth before = 0 → c ≠ ':')
    (begins : pseudo = [] ∨ depthAfter depth compound = 0 ∧ ∃ rest, pseudo = ':' :: rest) :
    splitPseudo depth (compound ++ pseudo) = (compound, pseudo) := by
  induction compound generalizing depth with
  | nil =>
    rcases begins with rfl | ⟨outside, rest, rfl⟩
    · rfl
    · have here : depth = 0 := outside
      rw [List.nil_append, splitPseudo, here]
      rfl
  | cons c compound ih =>
    have here : (decide (depth = 0) && decide (c = ':')) = false := by
      by_cases outside : depth = 0
      · rw [decide_eq_false (bare [] c compound rfl outside), Bool.and_false]
      · rw [decide_eq_false outside, Bool.false_and]
    rw [List.cons_append, splitPseudo, here, if_neg Bool.false_ne_true,
      ih (fun before d after whole => bare (c :: before) d after (by rw [whole, List.cons_append])) begins]

/-- The scope is attached to the last compound of a plain selector, before its pseudo parts. -/
theorem scopedSelector_text (selector : Selector) (plain : IsPlain selector.text) (scope : Text) :
    scopedSelector scope selector.text = selector.confined scope := by
  obtain ⟨lead, compound, pseudo, led, last, bare, begins⟩ := selector
  simp only [Selector.text] at plain
  have outside := isOutside_of_led led
  have zero : depthAfter 0 lead = 0 := by
    rw [List.append_assoc] at plain
    rw [← plain.reach_eq.1, show reach lead = {} from outside]
  have starts : compoundStart 0 0 0 lead = lead.length := by
    rcases led with rfl | ⟨before, c, rfl, outsideBefore, combines⟩
    · rfl
    · have front : IsPlain (before ++ c :: (compound ++ pseudo)) := by simpa using plain
      rw [compoundStart_append, front.isOutside_iff.1 outsideBefore, compoundStart, combines, List.length_append]
      simp [compoundStart]
  rw [List.append_assoc] at plain
  have rest := plain.of_lead outside
  have behind : compoundStart 0 0 0 (lead ++ compound ++ pseudo) = lead.length := by
    rw [List.append_assoc, compoundStart_append, zero, starts]
    refine compoundStart_of_none (fun before c after whole here => ?_) _ _
    rw [whole] at rest
    exact last before c after whole (rest.isOutside_iff.2 here)
  have parts : splitPseudo 0 (compound ++ pseudo) = (compound, pseudo) := by
    refine splitPseudo_append (fun before c after whole here => ?_) ?_
    · rw [whole, List.append_assoc, List.cons_append] at rest
      exact beq_eq_false_iff_ne.1 (bare before c after whole (rest.isOutside_iff.2 here))
    · refine begins.imp_right fun begun => ⟨?_, begun.2⟩
      rw [← rest.reach_eq.1, show reach compound = {} from begun.1]
  have attached : attach scope (lead ++ compound ++ pseudo) = lead ++ compound ++ "[" ++ scope ++ "]" ++ pseudo := by
    rw [attach, behind, List.append_assoc, List.drop_left, List.take_left, parts]
  rw [scopedSelector, Selector.text, attached, Selector.confined, Selector.text]

/-! ### Lists of selectors -/

end Stylesheet

namespace Text

theorem trimRight_trimRight (text : Text) : trimRight (trimRight text) = trimRight text := by
  rw [trimRight, trimRight, List.reverse_reverse, ← trimLeft, ← trimLeft, trimLeft_trimLeft]

theorem trim_append_left {space : Text} (blank : IsSpace space) (text : Text) : trim (space ++ text) = trim text := by
  rw [trim, trimLeft_append_of_space blank, ← trim]

/-- The first word of a text that begins with none of the white space. -/
theorem head?_words {c : Char} {text : Text} (solid : isBlank c = false) :
    (words (c :: text)).head? = some ((c :: text).takeWhile (!isBlank ·)) := by
  rw [words, trimLeft_cons_of_not_blank solid, List.takeWhile_cons_of_pos (by rw [solid]; rfl)]
  rfl

/-- White space around a text is white space around its first and its last piece. -/
theorem map_trim_pieces {separator : Char} (solid : isBlank separator = false) (text : Text) :
    (pieces separator (trim text)).map trim = (pieces separator text).map trim := by
  have apart {space : Text} (blank : IsSpace space) : ∀ c ∈ space, c ≠ separator := by
    rintro c member rfl
    exact absurd (blank c member) (by simp [solid])
  have front {space : Text} (blank : IsSpace space) (text : Text) :
      (pieces separator (space ++ text)).map trim = (pieces separator text).map trim := by
    induction space with
    | nil => rfl
    | cons c space ih =>
      have here : IsSpace [c] := fun d member => blank d (by simp [List.mem_singleton.1 member])
      obtain ⟨piece, rest, before, after⟩ := pieces_cons (apart blank c List.mem_cons_self) (space ++ text)
      have later := ih fun d member => blank d (List.mem_cons_of_mem c member)
      have trimmed : trim (c :: piece) = trim piece := trim_append_left here piece
      rw [List.cons_append, after, ← later, before, List.map_cons, List.map_cons, trimmed]
  have back {space : Text} (blank : IsSpace space) (text : Text) :
      (pieces separator (text ++ space)).map trim = (pieces separator text).map trim := by
    obtain ⟨front, last, before, after⟩ := exists_pieces_append (fun member => apart blank separator member rfl) text
    rw [before, after, List.map_append, List.map_append, List.map_singleton, List.map_singleton, trim_append_of_space _ blank]
  obtain ⟨before, after, left, right, whole⟩ := exists_eq_trim text
  have padded := (back right (before ++ trim text)).trans (front left (trim text))
  rw [← whole] at padded
  exact padded.symm

end Text

namespace Stylesheet

/-! ### Stylesheets -/

/-- A selector between white space. -/
structure Padded where
  left : Text
  selector : Selector
  right : Text

/-- A stylesheet: style rules, at-rules that hold stylesheets, and other at-rules, with the white space between them. -/
inductive Sheet where
  | done (space : Text)
  | rule (selectors : List Padded) (body : Text) (rest : Sheet)
  | nesting (left keyword gap condition right : Text) (inside rest : Sheet)
  | passing (left prelude right body : Text) (rest : Sheet)

def Padded.print (padded : Padded) : Text := padded.left ++ padded.selector.text ++ padded.right

/-- A selector as a rule may list it: not empty, without white space at its ends, and without braces and commas. -/
@[mk_iff]
structure Padded.IsSound (padded : Padded) : Prop where
  left : IsSpace padded.left
  right : IsSpace padded.right
  nonempty : padded.selector.text ≠ []
  trimmed : Text.trim padded.selector.text = padded.selector.text
  plain : ∀ c ∈ ("\x7b\x7d," : Text), c ∉ padded.selector.text
  named : padded.selector.text.head? ≠ some '@'

instance (padded : Padded) : Decidable padded.IsSound := decidable_of_iff _ (Padded.isSound_iff padded).symm

/-- A text whose braces are closed. -/
inductive Braced : Text → Prop
  | done : Braced []
  | plain {c : Char} {rest : Text} : c ≠ '\x7b' → c ≠ '\x7d' → Braced rest → Braced (c :: rest)
  | braces {inside rest : Text} : Braced inside → Braced rest → Braced ('\x7b' :: inside ++ '\x7d' :: rest)

namespace Sheet

def print : Sheet → Text
  | done space => space
  | rule selectors body rest => List.intercalate [','] (selectors.map Padded.print) ++ '\x7b' :: (body ++ '\x7d' :: rest.print)
  | nesting left keyword gap condition right inside rest =>
    left ++ '@' :: (keyword ++ gap ++ condition) ++ right ++ '\x7b' :: (inside.print ++ '\x7d' :: rest.print)
  | passing left prelude right body rest => left ++ prelude ++ right ++ '\x7b' :: (body ++ '\x7d' :: rest.print)

/-- The stylesheet with the selectors of all its rules scoped. -/
def confined (scope : Text) : Sheet → Text
  | done _ => []
  | rule selectors body rest =>
    List.intercalate ", " (selectors.map fun padded => padded.selector.confined scope) ++ " \x7b" ++ body ++ "\x7d\n" ++
      rest.confined scope
  | nesting _ keyword gap condition _ inside rest =>
    '@' :: (keyword ++ gap ++ condition) ++ " \x7b\n" ++ inside.confined scope ++ "\x7d\n" ++ rest.confined scope
  | passing _ prelude _ body rest => prelude ++ " \x7b" ++ body ++ "\x7d\n" ++ rest.confined scope

/-- The selectors of all rules. -/
def selectors : Sheet → List Selector
  | done _ => []
  | rule selectors _ rest => selectors.map Padded.selector ++ rest.selectors
  | nesting _ _ _ _ _ inside rest => inside.selectors ++ rest.selectors
  | passing _ _ _ _ rest => rest.selectors

def isDone : Sheet → Bool
  | done _ => true
  | _ => false

/-- The parts of a stylesheet are what they are to be: a rule has a selector and no braces in its body; an at-rule that
holds a stylesheet has one of the keywords for it, in any letter case, and a condition; any other at-rule has a body whose
braces are closed, and another keyword or no block in its body. -/
def IsSound : Sheet → Prop
  | done space => IsSpace space
  | rule selectors body rest =>
    selectors ≠ [] ∧ (∀ padded ∈ selectors, padded.IsSound) ∧ '\x7b' ∉ body ∧ '\x7d' ∉ body ∧ rest.IsSound
  | nesting left keyword gap condition right inside rest =>
    IsSpace left ∧ IsSpace right ∧ (∀ c ∈ keyword, c.isAlpha = true) ∧ keyword.map Char.toLower ∈ conditionalRules ∧
      IsSpace gap ∧ gap ≠ [] ∧ condition ≠ [] ∧ Text.trim condition = condition ∧ '\x7b' ∉ condition ∧ '\x7d' ∉ condition ∧
      inside.isDone = false ∧ inside.IsSound ∧ rest.IsSound
  | passing left prelude right body rest =>
    IsSpace left ∧ IsSpace right ∧ prelude.head? = some '@' ∧ Text.trim prelude = prelude ∧ '\x7b' ∉ prelude ∧
      '\x7d' ∉ prelude ∧ Braced body ∧ (keyword prelude ∉ conditionalRules ∨ '\x7b' ∉ body) ∧ rest.IsSound

end Sheet

theorem braced_of_not_mem {text : Text} (opens : '\x7b' ∉ text) (closes : '\x7d' ∉ text) : Braced text := by
  induction text with
  | nil => exact .done
  | cons c text ih =>
    simp only [List.mem_cons, not_or] at opens closes
    exact .plain (Ne.symm opens.1) (Ne.symm closes.1) (ih opens.2 closes.2)

theorem Braced.append {first second : Text} (front : Braced first) (back : Braced second) : Braced (first ++ second) := by
  induction front with
  | done => exact back
  | plain opens closes _ ih => exact .plain opens closes ih
  | braces inside _ _ ih =>
    rw [List.append_assoc, List.cons_append, List.cons_append]
    exact .braces inside ih

theorem block_cons {depth : Nat} {c : Char} (open_ : ¬(c = '\x7d' ∧ depth = 1)) (rest : Text) :
    block depth (c :: rest) =
      prepend [c] (block (if c = '\x7b' then depth + 1 else if c = '\x7d' then depth - 1 else depth) rest) := by
  rw [block, if_neg open_]
  rfl

/-- The block that a brace opens reaches over text whose braces are closed. -/
theorem block_append {text : Text} (braced : Braced text) {depth : Nat} (open_ : 0 < depth) (rest : Text) :
    block depth (text ++ rest) = prepend text (block depth rest) := by
  have prepended (first second : Text) (found : Text × Text) :
      prepend first (prepend second found) = prepend (first ++ second) found := by
    simp [prepend, Prod.map]
  induction braced generalizing depth rest with
  | done => rfl
  | @plain c text opens closes _ ih =>
    rw [List.cons_append, block_cons fun here => closes here.1, if_neg opens, if_neg closes, ih open_, prepended]
    rfl
  | @braces inside text _ _ ihInside ih =>
    have deeper : ¬('\x7d' = '\x7d' ∧ depth + 1 = 1) := fun here => by omega
    rw [List.append_assoc, List.cons_append, List.cons_append, block_cons fun here => absurd here.1 (by decide), if_pos rfl,
      ihInside (Nat.succ_pos depth), block_cons deeper, if_neg (by decide), if_pos rfl, Nat.add_sub_cancel, ih open_,
      prepended, prepended, prepended]
    simp

theorem block_closed {text : Text} (braced : Braced text) (rest : Text) : block 1 (text ++ '\x7d' :: rest) = (text, rest) := by
  rw [block_append braced Nat.one_pos, block, if_pos ⟨rfl, rfl⟩]
  simp [prepend, Prod.map]

theorem Braced.item {head body rest : Text} (opens : '\x7b' ∉ head) (closes : '\x7d' ∉ head) (inside : Braced body)
    (later : Braced rest) : Braced (head ++ '\x7b' :: (body ++ '\x7d' :: rest)) :=
  (braced_of_not_mem opens closes).append (.braces inside later)

theorem not_mem_of_isSpace {space : Text} (blank : IsSpace space) {c : Char} (solid : isBlank c = false) : c ∉ space :=
  fun member => absurd (blank c member) (by simp [solid])

theorem Padded.IsSound.not_mem {padded : Padded} (sound : padded.IsSound) {c : Char} (solid : isBlank c = false)
    (listed : c ∈ ("\x7b\x7d," : Text)) : c ∉ padded.print :=
  List.not_mem_append (List.not_mem_append (not_mem_of_isSpace sound.left solid) (sound.plain c listed))
    (not_mem_of_isSpace sound.right solid)

theorem not_mem_intercalate {separator : Text} {parts : List Text} {c : Char} (foreign : c ∉ separator)
    (free : ∀ part ∈ parts, c ∉ part) : c ∉ List.intercalate separator parts := by
  induction parts with
  | nil => exact List.not_mem_nil
  | cons part parts ih =>
    obtain ⟨here, later⟩ := List.forall_mem_cons.1 free
    cases parts with
    | nil => rwa [List.intercalate_singleton]
    | cons next parts =>
      rw [List.intercalate_cons_cons]
      exact List.not_mem_append (List.not_mem_append here foreign) (ih later)

/-- The prelude of a rule has no braces. -/
theorem not_mem_head {selectors : List Padded} (sound : ∀ padded ∈ selectors, padded.IsSound) {c : Char}
    (solid : isBlank c = false) (listed : c ∈ ("\x7b\x7d" : Text)) :
    c ∉ List.intercalate [','] (selectors.map Padded.print) := by
  have brace : c ≠ ',' := by rintro rfl; exact absurd listed (by decide)
  refine not_mem_intercalate (fun member => brace (List.mem_singleton.1 member)) ?_
  exact List.forall_mem_map.2 fun padded member => (sound padded member).not_mem solid (List.mem_append_left [','] listed)

/-- The prelude of an at-rule that holds a stylesheet has no braces. -/
theorem not_mem_conditional {left keyword gap condition right : Text} (blankLeft : IsSpace left)
    (letters : ∀ c ∈ keyword, c.isAlpha = true) (blankGap : IsSpace gap) (blankRight : IsSpace right) {c : Char}
    (solid : isBlank c = false) (symbol : c.isAlpha = false) (other : c ≠ '@') (absent : c ∉ condition) :
    c ∉ left ++ '@' :: (keyword ++ gap ++ condition) ++ right := by
  have inKeyword : c ∉ keyword := fun member => absurd (letters c member) (by simp [symbol])
  have inside := List.not_mem_append (List.not_mem_append inKeyword (not_mem_of_isSpace blankGap solid)) absent
  have prelude : c ∉ '@' :: (keyword ++ gap ++ condition) := List.mem_cons.not.2 (not_or.2 ⟨other, inside⟩)
  exact List.not_mem_append (List.not_mem_append (not_mem_of_isSpace blankLeft solid) prelude)
    (not_mem_of_isSpace blankRight solid)

namespace Sheet

theorem braced_print {sheet : Sheet} (sound : sheet.IsSound) : Braced sheet.print := by
  induction sheet with
  | done space => exact braced_of_not_mem (not_mem_of_isSpace sound (by decide)) (not_mem_of_isSpace sound (by decide))
  | rule selectors body rest ih =>
    obtain ⟨-, listed, opens, closes, later⟩ := sound
    exact .item (not_mem_head listed (by decide) (by decide)) (not_mem_head listed (by decide) (by decide))
      (braced_of_not_mem opens closes) (ih later)
  | nesting left keyword gap condition right inside rest ihInside ih =>
    obtain ⟨blankLeft, blankRight, letters, -, blankGap, -, -, -, opens, closes, -, within, later⟩ := sound
    have free {c : Char} (solid : isBlank c = false) (symbol : c.isAlpha = false) (other : c ≠ '@') (absent : c ∉ condition) :
        c ∉ left ++ '@' :: (keyword ++ gap ++ condition) ++ right :=
      not_mem_conditional blankLeft letters blankGap blankRight solid symbol other absent
    exact .item (free (by decide) (by decide) (by decide) opens) (free (by decide) (by decide) (by decide) closes)
      (ihInside within) (ih later)
  | passing left prelude right body rest ih =>
    obtain ⟨blankLeft, blankRight, -, -, opens, closes, braced, -, later⟩ := sound
    have free {c : Char} (solid : isBlank c = false) (absent : c ∉ prelude) : c ∉ left ++ prelude ++ right :=
      List.not_mem_append (List.not_mem_append (not_mem_of_isSpace blankLeft solid) absent) (not_mem_of_isSpace blankRight solid)
    exact .item (free (by decide) opens) (free (by decide) closes) braced (ih later)

/-- A stylesheet with an item has a block. -/
theorem mem_print {sheet : Sheet} (some : sheet.isDone = false) : '\x7b' ∈ sheet.print := by
  cases sheet with
  | done => cases some
  | rule | nesting | passing => exact List.mem_append_right _ List.mem_cons_self

end Sheet

/-- One item in front of others: its prelude, and the block that its brace opens. -/
theorem scopeItems_item {scope head body : Text} (free : '\x7b' ∉ head) (braced : Braced body) (rest : Text) :
    scopeItems scope (head ++ '\x7b' :: (body ++ '\x7d' :: rest)) =
      (if holdsRules (Text.trim head) body then
        written (Text.trim head) ("\n" ++ scopeItems scope (Pattern.erase comment body))
      else flatItem scope (Text.trim head) body) ++ scopeItems scope rest := by
  have cut : Text.cut? '\x7b' (head ++ '\x7b' :: (body ++ '\x7d' :: rest)) = some (head, body ++ '\x7d' :: rest) :=
    Text.cut?_append (fun _ member same => free (by rwa [same] at member)) _
  rw [scopeItems]
  split
  · next missing =>
    rw [cut] at missing
    cases missing
  · next found =>
    rw [cut] at found
    cases found
    dsimp only
    rw [block_closed braced]

theorem commentEnd_persists : Pattern.Persists fun text => (Text.after? "*/" text).map ((), ·) := by
  intro text more nothing
  cases closed : Text.after? "*/" text with
  | none => exact Option.map_eq_none_iff.2 closed
  | some rest =>
    have longer := Text.after?_append_of_some closed more
    rw [Option.map_eq_none_iff.1 nothing] at longer
    cases longer

theorem comment_persists : Pattern.Persists comment := by
  intro text more nothing
  simp only [comment, bind] at nothing ⊢
  cases opens : Text.after? "/*" text with
  | none => rfl
  | some opened =>
    rw [Text.after?_append_of_some opens, Option.bind_some] at nothing
    have unclosed : Pattern.seek? (fun text => (Text.after? "*/" text).map ((), ·)) (opened ++ more) = none := by
      cases sought : Pattern.seek? (fun text => (Text.after? "*/" text).map ((), ·)) (opened ++ more) with
      | none => rfl
      | some found =>
        rw [sought] at nothing
        cases nothing
    rw [Option.bind_some, commentEnd_persists.seek?_eq_none unclosed, Option.bind_none]

theorem isBlank_head {c : Char} {text : Text} (trimmed : Text.trim (c :: text) = c :: text) : isBlank c = false := by
  have front := Text.trimLeft_trim (c :: text)
  rw [trimmed] at front
  by_contra blank
  have shorter := Text.length_trimLeft_le text
  rw [Text.trimLeft, List.dropWhile_cons_of_pos (by simpa using blank)] at front
  have size := congrArg List.length front
  rw [← Text.trimLeft, List.length_cons] at size
  omega

theorem trim_cons {c : Char} (solid : isBlank c = false) (text : Text) :
    Text.trim (c :: text) = c :: Text.trimRight text := by
  have ended : Text.trimRight [c] = [c] := Text.trimRight_concat_of_not_blank solid []
  rw [Text.trim, Text.trimLeft_cons_of_not_blank solid, ← List.singleton_append, Text.trimRight_append_of_ended ended]
  rfl

/-- White space around a text is trimmed off. -/
theorem trim_padded {left text right : Text} (blankLeft : IsSpace left) (blankRight : IsSpace right)
    (trimmed : Text.trim text = text) : Text.trim (left ++ text ++ right) = text := by
  rw [Text.trim_append_of_space _ blankRight, Text.trim_append_left blankLeft, trimmed]

/-- The prelude of an at-rule that holds a stylesheet ends as its condition does. -/
theorem trim_prelude {keyword gap condition : Text} (some : condition ≠ []) (trimmed : Text.trim condition = condition) :
    Text.trim ('@' :: (keyword ++ gap ++ condition)) = '@' :: (keyword ++ gap ++ condition) := by
  have ended : Text.trimRight condition = condition := by
    rw [← trimmed]
    exact Text.trimRight_trimRight (Text.trimLeft condition)
  rw [trim_cons (by decide), Text.trimRight_append _ (by rwa [ended]), ended]

/-- The selectors of a rule are read off its prelude. -/
theorem selectors_print {selectors : List Padded} (some : selectors ≠ []) (sound : ∀ padded ∈ selectors, padded.IsSound) :
    Stylesheet.selectors (Text.trim (List.intercalate [','] (selectors.map Padded.print))) =
      selectors.map fun padded => padded.selector.text := by
  have parts : Text.pieces ',' (List.intercalate [','] (selectors.map Padded.print)) = selectors.map Padded.print := by
    refine Text.pieces_intercalate (fun nothing => some (List.map_eq_nil_iff.1 nothing)) ?_
    exact List.forall_mem_map.2 fun padded member => (sound padded member).not_mem (by decide) (by decide)
  have trimmed : (selectors.map Padded.print).map Text.trim = selectors.map fun padded => padded.selector.text := by
    rw [List.map_map]
    refine List.map_congr_left fun padded member => ?_
    exact trim_padded (sound padded member).left (sound padded member).right (sound padded member).trimmed
  rw [Stylesheet.selectors, Text.map_trim_pieces (by decide), parts, trimmed]
  refine List.filter_eq_self.2 (List.forall_mem_map.2 fun padded member => ?_)
  exact bne_iff_ne.2 (sound padded member).nonempty

/-- A selector as the first one of a rule: it is not empty, has no white space at its front, and is no at-rule. -/
def Padded.Begins (padded : Padded) : Prop :=
  IsSpace padded.left ∧ padded.selector.text ≠ [] ∧ Text.trim padded.selector.text = padded.selector.text ∧
    padded.selector.text.head? ≠ some '@'

theorem Padded.IsSound.begins {padded : Padded} (sound : padded.IsSound) : padded.Begins :=
  ⟨sound.left, sound.nonempty, sound.trimmed, sound.named⟩

/-- The prelude of a rule begins as its first selector does. -/
theorem head?_prelude {selectors : List Padded} (some : selectors ≠ []) (begins : ∀ padded ∈ selectors, padded.Begins) :
    ∃ c rest, Text.trim (List.intercalate [','] (selectors.map Padded.print)) = c :: rest ∧ c ≠ '@' := by
  obtain ⟨first, others, rfl⟩ := List.exists_cons_of_ne_nil some
  obtain ⟨left, nonempty, trimmed, named⟩ := begins first List.mem_cons_self
  obtain ⟨c, rest, text⟩ := List.exists_cons_of_ne_nil nonempty
  rw [text] at trimmed named
  obtain ⟨more, whole⟩ : ∃ more,
      List.intercalate [','] ((first :: others).map Padded.print) = first.left ++ c :: (rest ++ more) := by
    cases others with
    | nil => exact ⟨first.right, by simp [Padded.print, text]⟩
    | cons second others =>
      exact ⟨first.right ++ [','] ++ List.intercalate [','] ((second :: others).map Padded.print),
        by rw [List.map_cons, List.map_cons, List.intercalate_cons_cons, ← List.map_cons]; simp [Padded.print, text]⟩
  rw [whole, Text.trim_append_left left, trim_cons (isBlank_head trimmed)]
  exact ⟨c, _, rfl, fun same => named (congrArg Option.some same)⟩

/-- The keyword of an at-rule that holds a stylesheet. -/
theorem keyword_prelude {keyword gap condition : Text} (letters : ∀ c ∈ keyword, c.isAlpha = true) (named : keyword ≠ [])
    (blank : IsSpace gap) (apart : gap ≠ []) :
    Stylesheet.keyword ('@' :: (keyword ++ gap ++ condition)) = keyword.map Char.toLower := by
  have parts : ∀ c ∈ keyword, isTagNamePart c = true := fun c member => by
    simp [isTagNamePart, Char.isAlphanum, letters c member]
  obtain ⟨c, rest, rfl⟩ := List.exists_cons_of_ne_nil named
  obtain ⟨space, spaces, rfl⟩ := List.exists_cons_of_ne_nil apart
  have solid : ∀ d ∈ c :: rest, (!isBlank d) = true := fun d member => by
    rw [isBlank_of_isTagNamePart (parts d member)]
    rfl
  have first : (c :: (rest ++ space :: (spaces ++ condition))).takeWhile (!isBlank ·) = c :: rest := by
    rw [← List.cons_append, List.takeWhile_append_of_pos solid, List.takeWhile_cons_of_neg (by simp [blank space]),
      List.append_nil]
  rw [Stylesheet.keyword, List.drop_one, List.tail_cons, List.append_assoc, List.cons_append, List.cons_append,
    Text.head?_words (by simpa using solid c List.mem_cons_self), first]
  exact Text.lower_of_isTagNamePart parts

theorem scopeItems_of_not_mem {text : Text} (free : '\x7b' ∉ text) (scope : Text) : scopeItems scope text = [] := by
  rw [scopeItems]
  split
  · rfl
  · next before after opened =>
    exact absurd (by rw [Text.eq_of_cut? opened]; simp) free

theorem flatItem_rule {head : Text} {c : Char} {rest : Text} (begins : head = c :: rest) (named : c ≠ '@') (scope body : Text) :
    flatItem scope head body =
      written (List.intercalate ", " ((Stylesheet.selectors head).map (scopedSelector scope))) body := by
  unfold flatItem
  split
  · cases begins
  · next same =>
    cases begins
    exact absurd rfl named
  · rfl

theorem flatItem_at {head : Text} (at_ : head.head? = some '@') (scope body : Text) :
    flatItem scope head body = written head body := by
  obtain ⟨rest, rfl⟩ : ∃ rest, head = '@' :: rest := by
    cases head with
    | nil => cases at_
    | cons c rest => exact ⟨rest, by rw [Option.some.inj at_]⟩
  rfl

/-- A rule in front of other items: the pieces of its prelude are scoped one by one. -/
theorem scopeItems_prelude {selectors : List Padded} {body : Text} (some : selectors ≠ [])
    (first : ∀ padded ∈ selectors, padded.Begins) (free : '\x7b' ∉ List.intercalate [','] (selectors.map Padded.print))
    (braced : Braced body) (scope rest : Text) :
    scopeItems scope (List.intercalate [','] (selectors.map Padded.print) ++ '\x7b' :: (body ++ '\x7d' :: rest)) =
      written (List.intercalate ", " ((Stylesheet.selectors
        (Text.trim (List.intercalate [','] (selectors.map Padded.print)))).map (scopedSelector scope))) body ++
          scopeItems scope rest := by
  obtain ⟨c, tail, begins, named⟩ := head?_prelude some first
  have flat : holdsRules (c :: tail) body = false := by
    rw [holdsRules, List.head?_cons, beq_eq_false_iff_ne.2 (by simpa using named), Bool.false_and, Bool.false_and]
  rw [scopeItems_item free braced, begins, flat, if_neg Bool.false_ne_true, flatItem_rule rfl named]

/-- One rule in front of other items. -/
theorem scopeItems_rule {selectors : List Padded} {body : Text} (some : selectors ≠ [])
    (sound : ∀ padded ∈ selectors, padded.IsSound) (plain : ∀ padded ∈ selectors, IsPlain padded.selector.text)
    (braced : Braced body) (scope rest : Text) :
    scopeItems scope (List.intercalate [','] (selectors.map Padded.print) ++ '\x7b' :: (body ++ '\x7d' :: rest)) =
      written (List.intercalate ", " (selectors.map fun padded => padded.selector.confined scope)) body ++
        scopeItems scope rest := by
  have confined : (selectors.map fun padded => padded.selector.text).map (scopedSelector scope) =
      selectors.map fun padded => padded.selector.confined scope := by
    rw [List.map_map]
    exact List.map_congr_left fun padded member => scopedSelector_text padded.selector (plain padded member) scope
  rw [scopeItems_prelude some (fun padded member => (sound padded member).begins) (not_mem_head sound (by decide) (by decide))
    braced, selectors_print some sound, confined]

/-- A text that is set in a stylesheet without comments has none either. -/
theorem absent_inside {head body rest : Text} (absent : Pattern.Absent comment (head ++ '\x7b' :: (body ++ '\x7d' :: rest))) :
    Pattern.Absent comment body ∧ Pattern.Absent comment rest := by
  constructor
  · have whole : head ++ '\x7b' :: (body ++ '\x7d' :: rest) = (head ++ ['\x7b']) ++ body ++ '\x7d' :: rest := by simp
    exact comment_persists.absent_part (whole ▸ absent)
  · have whole : head ++ '\x7b' :: (body ++ '\x7d' :: rest) = (head ++ '\x7b' :: (body ++ ['\x7d'])) ++ rest := by simp
    exact (Pattern.absent_append_iff.1 (whole ▸ absent)).2

/-- Every item of a stylesheet comes out in its place: a rule with its selectors scoped, an at-rule that holds a stylesheet
with the rules in it scoped, and any other at-rule as it is. -/
theorem scopeItems_print {sheet : Sheet} (sound : sheet.IsSound) (uncommented : Pattern.Absent comment sheet.print)
    (plain : ∀ selector ∈ sheet.selectors, IsPlain selector.text) (scope : Text) :
    scopeItems scope sheet.print = sheet.confined scope := by
  induction sheet with
  | done space => exact scopeItems_of_not_mem (not_mem_of_isSpace sound (by decide)) scope
  | rule selectors body rest ih =>
    obtain ⟨some, listed, opens, closes, later⟩ := sound
    have here : ∀ padded ∈ selectors, IsPlain padded.selector.text := fun padded member =>
      plain _ (List.mem_append_left _ (List.mem_map_of_mem member))
    have others := ih later (absent_inside uncommented).2 fun selector member =>
      plain selector (List.mem_append_right _ member)
    rw [Sheet.print, scopeItems_rule some listed here (braced_of_not_mem opens closes), others]
    rfl
  | nesting left keyword gap condition right inside rest ihInside ih =>
    obtain ⟨blankLeft, blankRight, letters, nests, blankGap, apart, some, trimmed, opens, -, filled, within, later⟩ := sound
    have named : keyword ≠ [] := by
      rintro rfl
      exact absurd nests (by decide)
    have body := ihInside within (absent_inside uncommented).1 fun selector member =>
      plain selector (List.mem_append_left _ member)
    have others := ih later (absent_inside uncommented).2 fun selector member =>
      plain selector (List.mem_append_right _ member)
    have prelude : Text.trim (left ++ '@' :: (keyword ++ gap ++ condition) ++ right) = '@' :: (keyword ++ gap ++ condition) :=
      trim_padded blankLeft blankRight (trim_prelude some trimmed)
    have holds : holdsRules ('@' :: (keyword ++ gap ++ condition)) inside.print = true := by
      rw [holdsRules, keyword_prelude letters named blankGap apart, List.head?_cons, List.contains_iff_mem.2 nests,
        List.elem_eq_true_of_mem (Sheet.mem_print filled)]
      rfl
    have free : '\x7b' ∉ left ++ '@' :: (keyword ++ gap ++ condition) ++ right :=
      not_mem_conditional blankLeft letters blankGap blankRight (by decide) (by decide) (by decide) opens
    rw [Sheet.print, scopeItems_item free (Sheet.braced_print within), prelude, holds, if_pos rfl,
      Pattern.erase_of_absent (absent_inside uncommented).1, body, others]
    simp [written, Sheet.confined]
  | passing left prelude right body rest ih =>
    obtain ⟨blankLeft, blankRight, at_, trimmed, opens, closes, braced, flat, later⟩ := sound
    have others := ih later (absent_inside uncommented).2 plain
    have passes : holdsRules prelude body = false := by
      rw [holdsRules, Bool.and_eq_false_iff, Bool.and_eq_false_iff]
      refine flat.imp (fun other => .inr ?_) fun none => ?_
      · exact Bool.eq_false_iff.2 fun found => other (List.contains_iff_mem.1 found)
      · exact Bool.eq_false_iff.2 fun found => none (List.mem_of_elem_eq_true found)
    have free : '\x7b' ∉ left ++ prelude ++ right :=
      List.not_mem_append (List.not_mem_append (not_mem_of_isSpace blankLeft (by decide)) opens)
        (not_mem_of_isSpace blankRight (by decide))
    rw [Sheet.print, scopeItems_item free braced, trim_padded blankLeft blankRight trimmed, passes,
      if_neg Bool.false_ne_true, flatItem_at at_, others]
    rfl

/-- Scoping a stylesheet scopes the selectors of its rules, however deep they are, and keeps everything else. Every text is
a selector, with one last compound and its pseudo parts. -/
theorem confine_print {sheet : Sheet} (sound : sheet.IsSound) (uncommented : Pattern.Absent comment sheet.print)
    (plain : ∀ selector ∈ sheet.selectors, IsPlain selector.text) (scope : Text) :
    confine sheet.print scope = sheet.confined scope ∧ ∀ text, ∃ selector : Selector, selector.text = text := by
  refine ⟨?_, exists_selector⟩
  rw [confine, Pattern.erase_of_absent uncommented, scopeItems_print sound uncommented plain]

/-- A stylesheet with two selectors in a rule, a rule for small screens and an animation. -/
def cardSheet : Sheet :=
  .rule
    [⟨"\n", ⟨[], "a", ":hover", .inl rfl, by decide, by decide, .inr ⟨rfl, "hover", rfl⟩⟩, " "⟩,
      ⟨" ", ⟨".card > ", "a[href='x:y']", [], .inr ⟨".card >", ' ', rfl, rfl, rfl⟩, by decide, by decide, .inl rfl⟩, " "⟩]
    " color: red; "
    (.nesting "\n" "media" " " "(width < 9em)" " "
      (.rule [⟨[], ⟨[], "p", [], .inl rfl, by decide, by decide, .inl rfl⟩, []⟩] " margin: 0 " (.done " "))
      (.passing "\n" "@keyframes spin" " " " from \x7b top: 0 \x7d " (.done "\n")))

theorem confine_print_cardSheet :
    cardSheet.confined "data-x" =
      ("a[data-x]:hover, [data-x] a:hover, .card > a[href='x:y'][data-x], [data-x] .card > a[href='x:y'] " ++
        "\x7b color: red; \x7d\n@media (width < 9em) \x7b\np[data-x], [data-x] p \x7b margin: 0 \x7d\n\x7d\n" ++
        "@keyframes spin \x7b from \x7b top: 0 \x7d \x7d\n" : Text) ∧
      confine cardSheet.print "data-x" = cardSheet.confined "data-x" := by
  have animation : Braced (" from \x7b top: 0 \x7d " : Text) :=
    @Braced.item " from " " top: 0 " " " (by decide) (by decide) (braced_of_not_mem (by decide) (by decide))
      (braced_of_not_mem (by decide) (by decide))
  have blank (space : Text) (is : IsSpace space) : (Sheet.done space).IsSound := is
  have sound : cardSheet.IsSound := by
    refine ⟨by simp, by decide, by decide, by decide, ?nesting⟩
    refine ⟨by decide, by decide, by decide, by decide, by decide, by decide, by decide, by decide, by decide, by decide, rfl,
      ?inside, ?passing⟩
    case inside => exact ⟨by simp, by decide, by decide, by decide, blank _ (by decide)⟩
    case passing =>
      exact ⟨by decide, by decide, rfl, by decide, by decide, by decide, animation, by decide +kernel, blank _ (by decide)⟩
  have uncommented : Pattern.Absent comment cardSheet.print := Pattern.absent_of_seek? (by decide +kernel)
  exact ⟨by decide +kernel, (confine_print sound uncommented (by decide +kernel) "data-x").1⟩

end Stylesheet

end ComponentPages
