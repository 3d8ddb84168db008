import ComponentPages.Proofs.Stylesheet

/-!
Stylesheets in which at-rules without a block stand between the other items, and in which the condition of an at-rule may
follow its keyword right away.

The scanner of stylesheets takes all text in front of a brace for the prelude of that brace's block. An at-rule without a
block and the item behind it are one at-rule to it, and the first word of a prelude counts as its keyword, whatever that
word ends in. So a rule behind an at-rule without a block comes out as it is, and so do the rules inside of an at-rule whose
keyword the scanner does not find; all other rules are scoped.
-/
namespace ComponentPages

namespace Stylesheet

/-- A stylesheet: style rules, at-rules that hold stylesheets, other at-rules with a block, and at-rules without one, with
the white space between them. -/
inductive Listing where
  | done (space : Text)
  | rule (selectors : List Padded) (body : Text) (rest : Listing)
  | nesting (left keyword gap condition right : Text) (inside rest : Listing)
  | passing (left prelude right body : Text) (rest : Listing)
  | statement (left keyword text : Text) (rest : Listing)

/-- What the scanner makes of a stylesheet: rules to be scoped, at-rules whose blocks it has looked into, and at-rules that
are written as they are, unless their own prelude and block say otherwise. -/
inductive Reading where
  | done
  | rule (selectors : List Padded) (body : Text) (rest : Reading)
  | nesting (head : Text) (inside rest : Reading)
  | passing (head body : Text) (rest : Reading)

/-- An at-rule with a block. -/
def writtenAt (scope head body : Text) : Text :=
  if holdsRules head body then written head ("\n" ++ confine body scope) else written head body

namespace Reading

/-- The selectors of the rules that are scoped. -/
def selectors : Reading → List Selector
  | done => []
  | rule selectors _ rest => selectors.map Padded.selector ++ rest.selectors
  | nesting _ inside rest => inside.selectors ++ rest.selectors
  | passing _ _ rest => rest.selectors

def confined (scope : Text) : Reading → Text
  | done => []
  | rule selectors body rest =>
    written (List.intercalate ", " (selectors.map fun padded => padded.selector.confined scope)) body ++ rest.confined scope
  | nesting head inside rest => written head ("\n" ++ inside.confined scope) ++ rest.confined scope
  | passing head body rest => writtenAt scope head body ++ rest.confined scope

end Reading

/-- The prelude of a rule. -/
def ruleHead (selectors : List Padded) : Text := List.intercalate [','] (selectors.map Padded.print)

/-- An at-rule without a block. -/
def printStatement (left keyword text : Text) : Text := left ++ '@' :: (keyword ++ text ++ [';'])

/-- The prelude of an at-rule that holds a stylesheet. -/
def nestingHead (left keyword gap condition right : Text) : Text := left ++ '@' :: (keyword ++ gap ++ condition) ++ right

/-- The parts of an at-rule without a block: white space, a quote or a parenthesis ends its keyword. -/
structure IsStatement (left keyword text : Text) : Prop where
  blank : IsSpace left
  named : keyword ≠ []
  letters : ∀ c ∈ keyword, isTagNamePart c = true
  apart : ∀ c, text.head? = some c → isBlank c = true ∨ c ∈ ("(\"'" : Text)
  braceless : '\x7b' ∉ text ∧ '\x7d' ∉ text

/-- The parts of an at-rule that holds a stylesheet: without white space behind the keyword, the condition is in
parentheses. -/
structure IsNesting (left keyword gap condition right : Text) : Prop where
  blankLeft : IsSpace left
  blankRight : IsSpace right
  letters : ∀ c ∈ keyword, c.isAlpha = true
  nests : keyword.map Char.toLower ∈ conditionalRules
  blankGap : IsSpace gap
  apart : gap = [] → condition.head? = some '('
  solid : Text.trimRight condition ≠ []
  braceless : '\x7b' ∉ condition ∧ '\x7d' ∉ condition

/-- An at-rule without a block is taken for one that holds rules by its keyword. -/
def namesRules (keyword text : Text) : Bool :=
  conditionalRules.contains (keyword.map Char.toLower) && text.head?.any isBlank

namespace Listing

def print : Listing → Text
  | done space => space
  | rule selectors body rest => ruleHead selectors ++ '\x7b' :: (body ++ '\x7d' :: rest.print)
  | nesting left keyword gap condition right inside rest =>
    nestingHead left keyword gap condition right ++ '\x7b' :: (inside.print ++ '\x7d' :: rest.print)
  | passing left prelude right body rest => left ++ prelude ++ right ++ '\x7b' :: (body ++ '\x7d' :: rest.print)
  | statement left keyword text rest => printStatement left keyword text ++ rest.print

def IsSound : Listing → Prop
  | done space => IsSpace space
  | rule selectors body rest => selectors ≠ [] ∧ (∀ padded ∈ selectors, padded.IsSound) ∧ Braced body ∧ rest.IsSound
  | nesting left keyword gap condition right inside rest =>
    IsNesting left keyword gap condition right ∧ inside.IsSound ∧ rest.IsSound
  | passing left prelude right body rest =>
    IsSpace left ∧ IsSpace right ∧ prelude.head? = some '@' ∧ '\x7b' ∉ prelude ∧ '\x7d' ∉ prelude ∧ Braced body ∧ rest.IsSound
  | statement left keyword text rest => IsStatement left keyword text ∧ rest.IsSound

/-- The selectors of the rules that stand in no block, or only in blocks of at-rules that hold stylesheets. -/
def selectors : Listing → List Selector
  | done _ => []
  | rule selectors _ rest => selectors.map Padded.selector ++ rest.selectors
  | nesting _ _ _ _ _ inside rest => inside.selectors ++ rest.selectors
  | passing _ _ _ _ rest => rest.selectors
  | statement _ _ _ rest => rest.selectors

/-- How the scanner reads a stylesheet behind the at-rules without a block that it has passed since the last block. -/
def read (ahead : Text) : Listing → Reading
  | done _ => .done
  | rule selectors body rest =>
    if ahead = [] then .rule selectors body (rest.read [])
    else .passing (Text.trim (ahead ++ ruleHead selectors)) body (rest.read [])
  | nesting left keyword gap condition right inside rest =>
    let head := Text.trim (ahead ++ nestingHead left keyword gap condition right)
    if holdsRules head inside.print then .nesting head (inside.read []) (rest.read [])
    else .passing head inside.print (rest.read [])
  | passing left prelude right body rest => .passing (Text.trim (ahead ++ (left ++ prelude ++ right))) body (rest.read [])
  | statement left keyword text rest => rest.read (ahead ++ printStatement left keyword text)

/-- No rule stands right behind an at-rule without a block, and an at-rule with rules inside has white space behind its
keyword. Where such an at-rule stands behind ones without a block, the first of those is to be taken for one that holds
rules. -/
def IsClear (ahead : Option Bool) : Listing → Prop
  | done _ => True
  | rule _ _ rest => ahead = none ∧ rest.IsClear none
  | nesting _ _ gap _ _ inside rest =>
    (inside.selectors = [] ∨ ahead.getD (!gap.isEmpty) = true) ∧ inside.IsClear none ∧ rest.IsClear none
  | passing _ _ _ _ rest => rest.IsClear none
  | statement _ keyword text rest => rest.IsClear (ahead.or (some (namesRules keyword text)))

end Listing

/-! ### Keywords -/

/-- A character that ends a keyword stays what it is in lower case. -/
theorem mem_lower {c : Char} (mark : c ∈ ("(\"';" : Text)) {text : Text} (member : c ∈ text) : c ∈ Text.lower text := by
  have kept : c.toNat ≠ 0x130 ∧ c.toNat ≠ 0x3A3 ∧ lowerChar c = c := by
    fin_cases mark <;> decide
  have inside (before : Text) : c ∈ Text.lowerAfter before text := by
    induction text generalizing before with
    | nil => cases member
    | cons d text ih =>
      rw [Text.lowerAfter]
      rcases List.mem_cons.1 member with rfl | later
      · refine List.mem_append_left _ ?_
        rw [if_neg (by simpa using kept.1), if_neg (by simpa using kept.2.1), kept.2.2]
        exact List.mem_singleton_self _
      · exact List.mem_append_right _ (ih later _)
  exact inside []

theorem keyword_of_solid {name rest : Text} (named : name ≠ []) (letters : ∀ c ∈ name, isTagNamePart c = true) :
    keyword ('@' :: (name ++ rest)) = Text.lower (name ++ rest.takeWhile (!isBlank ·)) := by
  have solid : ∀ c ∈ name, (!isBlank c) = true := fun c member => by
    rw [isBlank_of_isTagNamePart (letters c member)]
    rfl
  obtain ⟨c, name, rfl⟩ := List.exists_cons_of_ne_nil named
  rw [keyword, List.drop_one, List.tail_cons, List.cons_append,
    Text.head?_words (by simpa using solid c List.mem_cons_self), ← List.cons_append, List.takeWhile_append_of_pos solid]
  rfl

/-- White space ends the keyword of an at-rule; a mark that stands there belongs to it. -/
theorem keyword_mem_iff {name : Text} {c : Char} (named : name ≠ []) (letters : ∀ c ∈ name, isTagNamePart c = true)
    (ends : isBlank c = true ∨ c ∈ ("(\"';" : Text)) (rest : Text) :
    keyword ('@' :: (name ++ c :: rest)) ∈ conditionalRules ↔
      name.map Char.toLower ∈ conditionalRules ∧ isBlank c = true := by
  rw [keyword_of_solid named letters]
  by_cases blank : isBlank c = true
  · rw [List.takeWhile_cons_of_neg (by simp [blank]), List.append_nil, Text.lower_of_isTagNamePart letters]
    exact ⟨fun listed => ⟨listed, blank⟩, And.left⟩
  · have mark := ends.resolve_left blank
    refine ⟨fun listed => ?_, fun both => absurd both.2 blank⟩
    have inside : c ∈ Text.lower (name ++ (c :: rest).takeWhile (!isBlank ·)) := by
      rw [List.takeWhile_cons_of_pos (by simpa using blank)]
      exact mem_lower mark (List.mem_append_right _ List.mem_cons_self)
    generalize Text.lower (name ++ (c :: rest).takeWhile (!isBlank ·)) = word at listed inside
    have letters : ∀ word ∈ conditionalRules, ∀ mark ∈ ("(\"';" : Text), mark ∉ word := by decide
    exact absurd inside (letters word listed c mark)

/-- The prelude that an at sign begins. -/
theorem trim_at {space : Text} (blank : IsSpace space) (text : Text) :
    Text.trim (space ++ '@' :: text) = '@' :: Text.trimRight text := by
  rw [Text.trim_append_left blank, trim_cons (by decide)]

theorem keyword_statement_iff {left name text : Text} (sound : IsStatement left name text) (more : Text) :
    keyword (Text.trim (printStatement left name text ++ more)) ∈ conditionalRules ↔ namesRules name text = true := by
  have ended : Text.trimRight (';' :: more) = ';' :: Text.trimRight more := by
    have trimmed := @trim_cons ';' (by decide) more
    rwa [Text.trim, Text.trimLeft_cons_of_not_blank (by decide)] at trimmed
  have whole : printStatement left name text ++ more = left ++ '@' :: (name ++ text ++ ';' :: more) := by
    simp [printStatement]
  rw [whole, trim_at sound.blank, Text.trimRight_append _ (by rw [ended]; exact List.cons_ne_nil _ _), ended, List.append_assoc,
    namesRules, Bool.and_eq_true, List.contains_iff_mem]
  cases text with
  | nil => exact keyword_mem_iff sound.named sound.letters (.inr (by decide)) _
  | cons c text =>
    refine keyword_mem_iff sound.named sound.letters ((sound.apart c rfl).imp_right fun mark => ?_) _
    fin_cases mark <;> decide

theorem keyword_nesting_iff {left name gap condition right : Text} (sound : IsNesting left name gap condition right) :
    keyword (Text.trim (nestingHead left name gap condition right)) ∈ conditionalRules ↔ (!gap.isEmpty) = true := by
  have named : name ≠ [] := by
    rintro rfl
    exact absurd sound.nests (by decide)
  have letters : ∀ c ∈ name, isTagNamePart c = true := fun c member => by
    simp [isTagNamePart, Char.isAlphanum, sound.letters c member]
  have head : Text.trim (nestingHead left name gap condition right) = '@' :: (name ++ (gap ++ Text.trimRight condition)) := by
    rw [nestingHead, Text.trim_append_of_space _ sound.blankRight, trim_at sound.blankLeft,
      Text.trimRight_append _ sound.solid, List.append_assoc]
  rw [head]
  cases gap with
  | nil =>
    obtain ⟨rest, begins⟩ : ∃ rest, Text.trimRight condition = '(' :: rest := by
      have first := sound.apart rfl
      cases condition with
      | nil => cases first
      | cons c condition =>
        obtain rfl := Option.some.inj first
        have trimmed := @trim_cons '(' (by decide) condition
        rw [Text.trim, Text.trimLeft_cons_of_not_blank (by decide)] at trimmed
        exact ⟨_, trimmed⟩
    rw [begins]
    exact (keyword_mem_iff named letters (.inr (by decide)) rest).trans
      ⟨fun both => absurd both.2 (by decide), fun none => absurd none (by decide)⟩
  | cons c gap =>
    have blank := sound.blankGap c List.mem_cons_self
    exact (keyword_mem_iff named letters (.inl blank) _).trans ⟨fun _ => rfl, fun _ => ⟨sound.nests, blank⟩⟩

/-! ### What stands in front of an item -/

/-- The text of the at-rules without a block that stand in front of an item, if there are any, and whether the first of them
is taken for one that holds rules. -/
def Ahead : Option Bool → Text → Prop
  | none, ahead => ahead = []
  | some holds, ahead =>
    ('\x7b' ∉ ahead ∧ '\x7d' ∉ ahead) ∧ ∃ left name text more, IsStatement left name text ∧
      ahead = printStatement left name text ++ more ∧ holds = namesRules name text

namespace Ahead

variable {flag : Option Bool} {ahead : Text}

theorem nil : Ahead none [] := rfl

theorem braceless (before : Ahead flag ahead) : '\x7b' ∉ ahead ∧ '\x7d' ∉ ahead := by
  cases flag with
  | none =>
    obtain rfl : ahead = [] := before
    exact ⟨List.not_mem_nil, List.not_mem_nil⟩
  | some holds => exact before.1

/-- One at-rule more. -/
theorem append (before : Ahead flag ahead) {left name text : Text} (sound : IsStatement left name text) :
    Ahead (flag.or (some (namesRules name text))) (ahead ++ printStatement left name text) := by
  have free {c : Char} (solid : isBlank c = false) (other : c ≠ '@' ∧ c ≠ ';' ∧ isTagNamePart c = false) (absent : c ∉ text) :
      c ∉ printStatement left name text := by
    have inName : c ∉ name := fun member => absurd (sound.letters c member) (by simp [other.2.2])
    refine List.not_mem_append (not_mem_of_isSpace sound.blank solid) ?_
    simp [other, inName, absent]
  have inner : '\x7b' ∉ printStatement left name text ∧ '\x7d' ∉ printStatement left name text :=
    ⟨free (by decide) (by decide) sound.braceless.1, free (by decide) (by decide) sound.braceless.2⟩
  have braceless := before.braceless
  have both : '\x7b' ∉ ahead ++ printStatement left name text ∧ '\x7d' ∉ ahead ++ printStatement left name text :=
    ⟨List.not_mem_append braceless.1 inner.1, List.not_mem_append braceless.2 inner.2⟩
  cases flag with
  | none =>
    obtain rfl : ahead = [] := before
    exact ⟨both, left, name, text, [], sound, by simp, rfl⟩
  | some holds =>
    obtain ⟨-, left', name', text', more, sound', rfl, same⟩ := before
    exact ⟨both, left', name', text', more ++ printStatement left name text, sound', by simp, same⟩

/-- With an at-rule in front or as the next item, there is an at sign first. -/
theorem begins (before : Ahead flag ahead) (item : Text)
    (at_ : flag = none → ∃ space rest, IsSpace space ∧ item = space ++ '@' :: rest) :
    (Text.trim (ahead ++ item)).head? = some '@' := by
  cases flag with
  | none =>
    obtain rfl : ahead = [] := before
    obtain ⟨space, rest, blank, rfl⟩ := at_ rfl
    rw [List.nil_append, trim_at blank, List.head?_cons]
  | some holds =>
    obtain ⟨-, left, name, text, more, sound, rfl, -⟩ := before
    have whole : printStatement left name text ++ more ++ item = left ++ '@' :: (name ++ text ++ ';' :: (more ++ item)) := by
      simp [printStatement]
    rw [whole, trim_at sound.blank, List.head?_cons]

theorem keyword_nesting_iff (before : Ahead flag ahead) {left name gap condition right : Text}
    (sound : IsNesting left name gap condition right) :
    keyword (Text.trim (ahead ++ nestingHead left name gap condition right)) ∈ conditionalRules ↔
      flag.getD (!gap.isEmpty) = true := by
  cases flag with
  | none =>
    obtain rfl : ahead = [] := before
    exact Stylesheet.keyword_nesting_iff sound
  | some holds =>
    obtain ⟨-, left', name', text', more, sound', rfl, rfl⟩ := before
    rw [List.append_assoc]
    exact keyword_statement_iff sound' _

end Ahead

/-! ### Scanning -/

theorem not_mem_nestingHead {left name gap condition right : Text} (sound : IsNesting left name gap condition right) :
    '\x7b' ∉ nestingHead left name gap condition right ∧ '\x7d' ∉ nestingHead left name gap condition right :=
  ⟨not_mem_conditional sound.blankLeft sound.letters sound.blankGap sound.blankRight (by decide) (by decide) (by decide)
      sound.braceless.1,
    not_mem_conditional sound.blankLeft sound.letters sound.blankGap sound.blankRight (by decide) (by decide) (by decide)
      sound.braceless.2⟩

theorem not_mem_passingHead {left head right : Text} {c : Char} (blankLeft : IsSpace left) (blankRight : IsSpace right)
    (solid : isBlank c = false) (absent : c ∉ head) : c ∉ left ++ head ++ right :=
  List.not_mem_append (List.not_mem_append (not_mem_of_isSpace blankLeft solid) absent) (not_mem_of_isSpace blankRight solid)

theorem Listing.braced_print {listing : Listing} (sound : listing.IsSound) : Braced listing.print := by
  induction listing with
  | done space => exact braced_of_not_mem (not_mem_of_isSpace sound (by decide)) (not_mem_of_isSpace sound (by decide))
  | rule selectors body rest ih =>
    obtain ⟨-, listed, braced, later⟩ := sound
    exact .item (not_mem_head listed (by decide) (by decide)) (not_mem_head listed (by decide) (by decide)) braced (ih later)
  | nesting left keyword gap condition right inside rest ihInside ih =>
    obtain ⟨parts, within, later⟩ := sound
    exact .item (not_mem_nestingHead parts).1 (not_mem_nestingHead parts).2 (ihInside within) (ih later)
  | passing left prelude right body rest ih =>
    obtain ⟨blankLeft, blankRight, -, opens, closes, braced, later⟩ := sound
    exact .item (not_mem_passingHead blankLeft blankRight (by decide) opens)
      (not_mem_passingHead blankLeft blankRight (by decide) closes) braced (ih later)
  | statement left keyword text rest ih =>
    obtain ⟨parts, later⟩ := sound
    have free : Ahead _ ([] ++ printStatement left keyword text) := Ahead.nil.append parts
    exact (braced_of_not_mem free.braceless.1 free.braceless.2).append (ih later)

/-- A stylesheet with rules to scope has a block. -/
theorem Listing.mem_print {listing : Listing} (some : listing.selectors ≠ []) : '\x7b' ∈ listing.print := by
  induction listing with
  | done => exact absurd rfl some
  | rule | nesting | passing => exact List.mem_append_right _ List.mem_cons_self
  | statement left keyword text rest ih => exact List.mem_append_right _ (ih some)

/-- One at-rule in front of other items. -/
theorem scopeItems_at {head body : Text} (free : '\x7b' ∉ head) (at_ : (Text.trim head).head? = some '@')
    (braced : Braced body) (scope rest : Text) :
    scopeItems scope (head ++ '\x7b' :: (body ++ '\x7d' :: rest)) =
      writtenAt scope (Text.trim head) body ++ scopeItems scope rest := by
  rw [scopeItems_item free braced, writtenAt, flatItem_at at_]
  rfl

theorem scopeItems_read {listing : Listing} (sound : listing.IsSound) {flag : Option Bool} {ahead : Text}
    (before : Ahead flag ahead) (uncommented : Pattern.Absent comment (ahead ++ listing.print))
    (plain : ∀ selector ∈ listing.selectors, IsPlain selector.text) (scope : Text) :
    scopeItems scope (ahead ++ listing.print) = (listing.read ahead).confined scope := by
  induction listing generalizing flag ahead with
  | done space =>
    exact scopeItems_of_not_mem (List.not_mem_append before.braceless.1 (not_mem_of_isSpace sound (by decide))) scope
  | rule selectors body rest ih =>
    obtain ⟨some, listed, braced, later⟩ := sound
    rw [Listing.print, ← List.append_assoc] at uncommented ⊢
    have free : '\x7b' ∉ ahead ++ ruleHead selectors :=
      List.not_mem_append before.braceless.1 (not_mem_head listed (by decide) (by decide))
    have others := ih later Ahead.nil (absent_inside uncommented).2 fun selector member =>
      plain selector (List.mem_append_right _ member)
    rw [List.nil_append] at others
    cases flag with
    | none =>
      obtain rfl : ahead = [] := before
      rw [List.nil_append]
      have here : ∀ padded ∈ selectors, IsPlain padded.selector.text := fun padded member =>
        plain _ (List.mem_append_left _ (List.mem_map_of_mem member))
      rw [ruleHead, scopeItems_rule some listed here braced, others]
      rfl
    | some holds =>
      have behind : ahead ≠ [] := by
        obtain ⟨-, left, name, text, more, -, rfl, -⟩ := before
        simp [printStatement]
      rw [scopeItems_at free (before.begins _ nofun) braced, others, Listing.read, if_neg behind]
      rfl
  | nesting left keyword gap condition right inside rest ihInside ih =>
    obtain ⟨parts, within, later⟩ := sound
    rw [Listing.print, ← List.append_assoc] at uncommented ⊢
    have free : '\x7b' ∉ ahead ++ nestingHead left keyword gap condition right :=
      List.not_mem_append before.braceless.1 (not_mem_nestingHead parts).1
    have begins := before.begins (nestingHead left keyword gap condition right)
      fun _ => ⟨left, _, parts.blankLeft, by rw [nestingHead, List.append_assoc, List.cons_append]⟩
    have body := ihInside within Ahead.nil (absent_inside uncommented).1 fun selector member =>
      plain selector (List.mem_append_left _ member)
    have others := ih later Ahead.nil (absent_inside uncommented).2 fun selector member =>
      plain selector (List.mem_append_right _ member)
    rw [List.nil_append] at body others
    rw [scopeItems_at free begins (Listing.braced_print within), others, Listing.read, writtenAt]
    by_cases holds : holdsRules (Text.trim (ahead ++ nestingHead left keyword gap condition right)) inside.print = true
    · rw [if_pos holds, if_pos holds, confine, Pattern.erase_of_absent (absent_inside uncommented).1, body]
      rfl
    · rw [if_neg holds, if_neg holds, Reading.confined, writtenAt, if_neg holds]
  | passing left prelude right body rest ih =>
    obtain ⟨blankLeft, blankRight, at_, opens, closes, braced, later⟩ := sound
    rw [Listing.print, ← List.append_assoc] at uncommented ⊢
    have free : '\x7b' ∉ ahead ++ (left ++ prelude ++ right) :=
      List.not_mem_append before.braceless.1 (not_mem_passingHead blankLeft blankRight (by decide) opens)
    have begins := before.begins (left ++ prelude ++ right) fun _ => by
      obtain ⟨tail, rfl⟩ : ∃ tail, prelude = '@' :: tail := List.head?_eq_some_iff.1 at_
      exact ⟨left, tail ++ right, blankLeft, by simp⟩
    have others := ih later Ahead.nil (absent_inside uncommented).2 plain
    rw [List.nil_append] at others
    rw [scopeItems_at free begins braced, others]
    rfl
  | statement left keyword text rest ih =>
    obtain ⟨parts, later⟩ := sound
    rw [Listing.print, ← List.append_assoc] at uncommented ⊢
    exact ih later (before.append parts) uncommented plain

/-! ### Which rules are scoped -/

/-- A text of two parts that are kept or shortened is kept when both parts are. -/
theorem append_eq_iff_of_sublist {α : Type} {first second first' second' : List α} (front : first.Sublist first')
    (back : second.Sublist second') : first ++ second = first' ++ second' ↔ first = first' ∧ second = second' := by
  constructor
  · intro same
    have sizes := congrArg List.length same
    have short := front.length_le
    have shorter := back.length_le
    simp only [List.length_append] at sizes
    exact ⟨front.eq_of_length (by omega), back.eq_of_length (by omega)⟩
  · rintro ⟨rfl, rfl⟩
    rfl

theorem selectors_read_sublist (listing : Listing) (ahead : Text) :
    (listing.read ahead).selectors.Sublist listing.selectors := by
  induction listing generalizing ahead with
  | done => exact List.Sublist.refl []
  | rule selectors body rest ih =>
    rw [Listing.read]
    split
    · exact (List.Sublist.refl _).append (ih [])
    · exact (ih []).trans (List.sublist_append_right _ _)
  | nesting left keyword gap condition right inside rest ihInside ih =>
    rw [Listing.read]
    split
    · exact (ihInside []).append (ih [])
    · exact (ih []).trans (List.sublist_append_right _ _)
  | passing left prelude right body rest ih => exact ih []
  | statement left keyword text rest ih => exact ih _

theorem Listing.isClear_of_selectors {listing : Listing} (sound : listing.IsSound) (bare : listing.selectors = [])
    (flag : Option Bool) : listing.IsClear flag := by
  induction listing generalizing flag with
  | done => trivial
  | rule selectors body rest ih => exact absurd (List.map_eq_nil_iff.1 (List.append_eq_nil_iff.1 bare).1) sound.1
  | nesting left keyword gap condition right inside rest ihInside ih =>
    obtain ⟨within, later⟩ := List.append_eq_nil_iff.1 bare
    exact ⟨.inl within, ihInside sound.2.1 within none, ih sound.2.2 later none⟩
  | passing left prelude right body rest ih => exact ih sound.2.2.2.2.2.2 bare none
  | statement left keyword text rest ih => exact ih sound.2 bare _

/-- All rules of a stylesheet are scoped just when no at-rule in front of them keeps the scanner from it. -/
theorem selectors_read_iff {listing : Listing} (sound : listing.IsSound) {flag : Option Bool} {ahead : Text}
    (before : Ahead flag ahead) : (listing.read ahead).selectors = listing.selectors ↔ listing.IsClear flag := by
  induction listing generalizing flag ahead with
  | done => exact iff_of_true rfl trivial
  | rule selectors body rest ih =>
    obtain ⟨some, -, -, later⟩ := sound
    have others := ih later Ahead.nil
    rw [Listing.read, Listing.selectors, Listing.IsClear]
    cases flag with
    | none =>
      obtain rfl : ahead = [] := before
      rw [if_pos rfl, Reading.selectors, List.append_cancel_left_eq, others]
      exact (and_iff_right rfl).symm
    | some holds =>
      have behind : ahead ≠ [] := by
        obtain ⟨-, left, name, text, more, -, rfl, -⟩ := before
        simp [printStatement]
      rw [if_neg behind, Reading.selectors]
      refine iff_of_false (fun same => ?_) (fun both => absurd both.1 (Option.some_ne_none holds))
      have short := (selectors_read_sublist rest []).length_le
      have sizes := congrArg List.length same
      have size := List.length_pos_of_ne_nil some
      rw [List.length_append, List.length_map] at sizes
      omega
  | nesting left keyword gap condition right inside rest ihInside ih =>
    obtain ⟨parts, within, later⟩ := sound
    have body := ihInside within Ahead.nil
    have others := ih later Ahead.nil
    have begins := before.begins (nestingHead left keyword gap condition right)
      fun _ => ⟨left, _, parts.blankLeft, by rw [nestingHead, List.append_assoc, List.cons_append]⟩
    have named := before.keyword_nesting_iff parts
    rw [Listing.read, Listing.selectors, Listing.IsClear, ← others, ← body, ← named]
    split
    · next holds =>
      rw [holdsRules, begins, Bool.and_eq_true, Bool.and_eq_true, List.contains_iff_mem] at holds
      rw [Reading.selectors, append_eq_iff_of_sublist (selectors_read_sublist inside []) (selectors_read_sublist rest [])]
      exact (and_iff_right (.inr holds.1.2)).symm
    · next holds =>
      rw [Reading.selectors, ← List.nil_append (rest.read []).selectors,
        append_eq_iff_of_sublist (List.nil_sublist _) (selectors_read_sublist rest []), ← and_assoc]
      refine and_congr_left fun _ => ⟨fun bare => ?_, fun both => ?_⟩
      · exact ⟨.inl bare.symm, body.2 (Listing.isClear_of_selectors within bare.symm none)⟩
      · by_contra some
        have keyed := both.1.resolve_left fun bare => some bare.symm
        refine holds ?_
        rw [holdsRules, begins, List.contains_iff_mem.2 keyed,
          List.elem_eq_true_of_mem (Listing.mem_print fun bare => some bare.symm)]
        rfl
  | passing left prelude right body rest ih => exact ih sound.2.2.2.2.2.2 Ahead.nil
  | statement left keyword text rest ih => exact ih sound.2 (before.append sound.1)

/-- Scoping a stylesheet writes it as the scanner reads it, and scopes every rule just when the stylesheet is clear. -/
theorem confine_listing {listing : Listing} (sound : listing.IsSound) (uncommented : Pattern.Absent comment listing.print)
    (plain : ∀ selector ∈ listing.selectors, IsPlain selector.text) (scope : Text) :
    confine listing.print scope = (listing.read []).confined scope ∧
      ((listing.read []).selectors = listing.selectors ↔ listing.IsClear none) := by
  have scanned := scopeItems_read sound Ahead.nil uncommented plain scope
  refine ⟨?_, selectors_read_iff sound Ahead.nil⟩
  rw [confine, Pattern.erase_of_absent uncommented]
  exact scanned

/-- An import in front of a rule, a rule, and a rule for small screens without white space behind the keyword. -/
def plainPage : Listing :=
  .statement [] "import" " 'a'"
    (.rule [⟨"\n", .ofCompound ".b" (by decide) (by decide), " "⟩] " c: d "
      (.rule [⟨"\n", .ofCompound ".e" (by decide) (by decide), " "⟩] " f: g "
        (.nesting "\n" "media" [] "(width < 9em)" " "
          (.rule [⟨" ", .ofCompound "i" (by decide) (by decide), " "⟩] " margin: 0 " (.done " "))
          (.done "\n"))))

theorem confine_listing_plainPage :
    (plainPage.read []).confined "data-x" =
      ("@import 'a';\n.b \x7b c: d \x7d\n.e[data-x], [data-x] .e \x7b f: g \x7d\n" ++
        "@media(width < 9em) \x7b i \x7b margin: 0 \x7d \x7d\n" : Text) ∧
      confine plainPage.print "data-x" = (plainPage.read []).confined "data-x" ∧
      (plainPage.read []).selectors ≠ plainPage.selectors := by
  have blank (space : Text) (is : IsSpace space) : (Listing.done space).IsSound := is
  have sound : plainPage.IsSound := by
    refine ⟨⟨by decide, by decide, by decide, ?apart, by decide⟩, by simp, by decide, braced_of_not_mem (by decide) (by decide),
      by simp, by decide, braced_of_not_mem (by decide) (by decide), ⟨by decide, by decide, by decide, by decide, by decide,
        fun _ => rfl, by decide, by decide⟩, ⟨by simp, by decide, braced_of_not_mem (by decide) (by decide), blank _ (by decide)⟩,
      blank _ (by decide)⟩
    case apart =>
      rintro c ⟨⟩
      exact .inl (by decide)
  have uncommented : Pattern.Absent comment plainPage.print := Pattern.absent_of_seek? (by decide +kernel)
  obtain ⟨written, clear⟩ := confine_listing sound uncommented (by decide +kernel) "data-x"
  exact ⟨by decide +kernel, written, fun all => by cases (clear.1 all).1⟩

end Stylesheet

end ComponentPages
