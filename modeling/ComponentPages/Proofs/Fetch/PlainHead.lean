import ComponentPages.Proofs.Markup.Quiet

/-!
Masked braces in the heads of tags. A head whose attributes are bare or quoted is read and scanned alike before and
after its braces are masked: quotations hide what stands in them, and outside of them it has no brace.
-/
namespace ComponentPages

namespace Fetch

/-- What does not tell a brace from its mask does not see the masking. -/
theorem apply_maskChar {α : Type} {f : Char → α} (opening : f maskOpen = f '\x7b') (closing : f maskClose = f '\x7d')
    (c : Char) : f (maskChar c) = f c := by
  unfold maskChar
  split
  · next same => rw [same, opening]
  · split
    · next same => rw [same, closing]
    · rfl

theorem maskChar_of_not_isBrace {c : Char} (plain : Placeholder.isBrace c = false) : maskChar c = c := by
  simp only [Placeholder.isBrace, Bool.or_eq_false_iff, beq_eq_false_iff_ne] at plain
  rw [maskChar, if_neg plain.1, if_neg plain.2]

theorem isBrace_maskChar (c : Char) : Placeholder.isBrace (maskChar c) = false := by
  by_cases plain : Placeholder.isBrace c = true
  · simp only [Placeholder.isBrace, Bool.or_eq_true, beq_iff_eq] at plain
    rcases plain with rfl | rfl <;> decide
  · rw [Bool.not_eq_true] at plain
    rw [maskChar_of_not_isBrace plain, plain]

theorem map_maskChar_of_free {text : Text} (free : ∀ c ∈ text, Placeholder.isBrace c = false) :
    text.map maskChar = text := by
  conv => rhs; rw [← List.map_id text]
  exact List.map_congr_left fun c member => maskChar_of_not_isBrace (free c member)

theorem maskChar_eq_iff {c d : Char} (plain : Placeholder.isBrace d = false) (shown : isReserved d = false) :
    maskChar c = d ↔ c = d := by
  constructor
  · intro same
    by_cases brace : Placeholder.isBrace c = true
    · simp only [Placeholder.isBrace, Bool.or_eq_true, beq_iff_eq] at brace
      rcases brace with rfl | rfl
      · rw [← same] at shown
        exact absurd shown (by decide)
      · rw [← same] at shown
        exact absurd shown (by decide)
    · rw [Bool.not_eq_true] at brace
      rwa [maskChar_of_not_isBrace brace] at same
  · rintro rfl
    exact maskChar_of_not_isBrace plain

/-- Masking hides braces for good only where a mask stands already. -/
theorem unmask_map_maskChar {text : Text} (free : ∀ c ∈ text, isReserved c = false) : unmask (text.map maskChar) = text := by
  rw [unmask, List.map_map]
  conv => rhs; rw [← List.map_id text]
  refine List.map_congr_left fun c member => ?_
  by_cases brace : Placeholder.isBrace c = true
  · simp only [Placeholder.isBrace, Bool.or_eq_true, beq_iff_eq] at brace
    rcases brace with rfl | rfl <;> rfl
  · rw [Bool.not_eq_true] at brace
    have same : unmask [c] = [c] := by
      refine unmask_of_unreserved fun d only => ?_
      rw [List.mem_singleton.1 only]
      exact free c member
    rw [Function.comp_apply, maskChar_of_not_isBrace brace]
    exact (List.cons.inj same).1

end Fetch

namespace Text

open Fetch (maskChar)

theorem trimLeft_map_maskChar (text : Text) : trimLeft (text.map maskChar) = (trimLeft text).map maskChar := by
  have blind : isBlank ∘ maskChar = isBlank := funext fun c => Fetch.apply_maskChar (by decide) (by decide) c
  rw [trimLeft, List.dropWhile_map, blind, trimLeft]

theorem trimRight_map_maskChar (text : Text) : trimRight (text.map maskChar) = (trimRight text).map maskChar := by
  have left := trimLeft_map_maskChar text.reverse
  rw [trimLeft, List.map_reverse] at left
  rw [trimRight, left, trimLeft, ← List.map_reverse, trimRight]

theorem after?_map_maskChar {word : Text} (free : ∀ c ∈ word, Placeholder.isBrace c = false ∧ isReserved c = false)
    (text : Text) : after? word (text.map maskChar) = (after? word text).map (List.map maskChar) := by
  induction word generalizing text with
  | nil => rfl
  | cons c word ih =>
    cases text with
    | nil => rfl
    | cons d text =>
      obtain ⟨plain, shown⟩ := free c List.mem_cons_self
      have blind : c = maskChar d ↔ c = d := by
        rw [eq_comm, Fetch.maskChar_eq_iff plain shown, eq_comm]
      have later := ih (fun e member => free e (List.mem_cons_of_mem c member)) text
      rw [List.map_cons, after?, after?, if_congr blind rfl rfl, later]
      split <;> rfl

theorem afterFolded?_map_maskChar {word : Text} (blind : ∀ letter ∈ word,
      matchesLetter letter Fetch.maskOpen = matchesLetter letter '\x7b' ∧
        matchesLetter letter Fetch.maskClose = matchesLetter letter '\x7d')
    (text : Text) : afterFolded? word (text.map maskChar) = (afterFolded? word text).map (List.map maskChar) := by
  induction word generalizing text with
  | nil => rfl
  | cons letter word ih =>
    cases text with
    | nil => rfl
    | cons d text =>
      obtain ⟨opening, closing⟩ := blind letter List.mem_cons_self
      have later := ih (fun other member => blind other (List.mem_cons_of_mem letter member)) text
      rw [List.map_cons, afterFolded?, afterFolded?, Fetch.apply_maskChar opening closing, later]
      split <;> rfl

end Text

theorem TagHead.closesItself_map_maskChar (head : Text) : closesItself (head.map Fetch.maskChar) = closesItself head := by
  rw [closesItself, closesItself, Text.trimRight_map_maskChar, List.getLast?_map]
  cases (Text.trimRight head).getLast? with
  | none => rfl
  | some c =>
    have same := Fetch.maskChar_eq_iff (c := c) (d := '/') (by decide) (by decide)
    simpa using same

/-! ### Heads with bare and quoted attributes -/

/-- An attribute as a tag spells it, with what sets it off: bare, or with a constant between quotes. -/
inductive PlainAttribute where
  | bare (gap name : Text)
  | quoted (gap name left right : Text) (quote : Char) (text : Text)
deriving DecidableEq

/-- The characters that set attributes off. -/
def isGapPart (c : Char) : Bool := isBlank c || c == '/'

/-- The characters of an attribute's name: no quote and no brace is among them. -/
def isPlainNamePart (c : Char) : Bool := Attribute.isNamePart c && !isQuote c && !Placeholder.isBrace c

namespace PlainAttribute

def gap : PlainAttribute → Text
  | .bare gap _ => gap
  | .quoted gap _ _ _ _ _ => gap

def name : PlainAttribute → Text
  | .bare _ name => name
  | .quoted _ name _ _ _ _ => name

/-- What scanning makes of the value. -/
def value? : PlainAttribute → Option (Quoting × Text)
  | .bare _ _ => none
  | .quoted _ _ _ _ quote text => some (.quoted quote, text)

/-- The text of the value. -/
def text? : PlainAttribute → Option Text
  | .bare _ _ => none
  | .quoted _ _ _ _ _ text => some text

/-- What follows the name. -/
def ending : PlainAttribute → Text
  | .bare _ _ => []
  | .quoted _ _ left right quote text => left ++ '=' :: right ++ quote :: text ++ [quote]

def print (attr : PlainAttribute) : Text := attr.gap ++ attr.name ++ attr.ending

/-- What scanning makes of the attribute. -/
def scanned (attr : PlainAttribute) : Attribute := ⟨attr.name, attr.value?, attr.name ++ attr.ending⟩

/-- A constant is free of its quote. -/
def isValued : PlainAttribute → Bool
  | .bare _ _ => true
  | .quoted _ _ left right quote text =>
    left.all isBlank && right.all isBlank && isQuote quote && text.all (· != quote)

def isSound (attr : PlainAttribute) : Bool :=
  attr.gap != [] && attr.gap.all isGapPart && attr.name != [] && attr.name.all isPlainNamePart && attr.isValued

/-- Whether an attribute is neither a request nor a directive. -/
def isInert (attr : PlainAttribute) : Bool := attr.name != "fetch".toList && !Fetch.isDirectiveName attr.name

/-- The attribute with the braces of its constant masked. -/
def mask : PlainAttribute → PlainAttribute
  | .bare gap name => .bare gap name
  | .quoted gap name left right quote text => .quoted gap name left right quote (text.map Fetch.maskChar)

end PlainAttribute

/-- A head of bare and quoted attributes, with white space and slashes between and behind them. -/
def IsPlainHead (head : Text) : Prop :=
  ∃ (attributes : List PlainAttribute) (tail : Text), (∀ attr ∈ attributes, attr.isSound = true ∧ attr.isInert = true) ∧
    (∀ c ∈ tail, isGapPart c = true) ∧ head = attributes.flatMap PlainAttribute.print ++ tail

theorem flat_of_isGapPart {c : Char} (part : isGapPart c = true) :
    c ≠ '>' ∧ isQuote c = false ∧ Placeholder.isBrace c = false := by
  have foreign {d : Char} (other : isGapPart d = false) : c ≠ d := by
    rintro rfl
    rw [part] at other
    cases other
  simp [isQuote, Placeholder.isBrace, foreign (d := '>') (by decide), foreign (d := '\'') (by decide),
    foreign (d := '"') (by decide), foreign (d := '\x7b') (by decide), foreign (d := '\x7d') (by decide)]

theorem flat_of_isPlainNamePart {c : Char} (part : isPlainNamePart c = true) :
    c ≠ '>' ∧ isQuote c = false ∧ Placeholder.isBrace c = false := by
  simp only [isPlainNamePart, Attribute.isNamePart, Bool.and_eq_true, Bool.not_eq_true', bne_iff_ne] at part
  exact ⟨part.1.1.2, part.1.2, part.2⟩

theorem isNamePart_of_isGapPart {c : Char} (part : isGapPart c = true) : Attribute.isNamePart c = false := by
  simp only [isGapPart, Bool.or_eq_true, beq_iff_eq] at part
  rcases part with blank | rfl
  · simp [Attribute.isNamePart, blank]
  · decide

namespace PlainAttribute

variable {attr : PlainAttribute}

theorem isNamePart_of_isSound (sound : attr.isSound = true) :
    ∃ c tail, attr.name = c :: tail ∧ ∀ d ∈ c :: tail, isPlainNamePart d = true := by
  simp only [isSound, Bool.and_eq_true, List.all_eq_true, bne_iff_ne] at sound
  obtain ⟨c, tail, split⟩ := List.exists_cons_of_ne_nil sound.1.1.2
  exact ⟨c, tail, split, by rw [← split]; exact sound.1.2⟩

/-- An attribute hides no `>` but the ones between its quotes. -/
theorem split?_print (sound : attr.isSound = true) (rest : Text) :
    TagHead.split? none 0 (attr.print ++ rest) = (TagHead.split? none 0 rest).map (prepend attr.print) := by
  simp only [isSound, Bool.and_eq_true, List.all_eq_true] at sound
  obtain ⟨⟨⟨⟨-, apart⟩, -⟩, named⟩, valued⟩ := sound
  have front : ∀ c ∈ attr.gap ++ attr.name, c ≠ '>' ∧ isQuote c = false ∧ Placeholder.isBrace c = false := by
    intro c member
    rcases List.mem_append.1 member with inGap | inName
    · exact flat_of_isGapPart (apart c inGap)
    · exact flat_of_isPlainNamePart (named c inName)
  have value : TagHead.split? none 0 (attr.ending ++ rest) = (TagHead.split? none 0 rest).map (prepend attr.ending) := by
    cases attr with
    | bare gap name => exact (map_prepend_nil _).symm
    | quoted gap name left right quote text =>
      simp only [isValued, Bool.and_eq_true, List.all_eq_true, bne_iff_ne] at valued
      obtain ⟨⟨⟨leftSpace, rightSpace⟩, quotes⟩, free⟩ := valued
      have equals : ∀ c ∈ left ++ '=' :: right, c ≠ '>' ∧ isQuote c = false ∧ Placeholder.isBrace c = false := by
        intro c member
        have blank {space : Text} (spaces : ∀ c ∈ space, isBlank c = true) (inSpace : c ∈ space) :=
          flat_of_isGapPart (c := c) (by rw [isGapPart, spaces c inSpace, Bool.true_or])
        rcases List.mem_append.1 member with inLeft | later
        · exact blank leftSpace inLeft
        · rcases List.mem_cons.1 later with rfl | inRight
          · decide
          · exact blank rightSpace inRight
      have whole : (quoted gap name left right quote text).ending ++ rest =
          (left ++ '=' :: right) ++ (quote :: text ++ quote :: rest) := by simp [PlainAttribute.ending]
      rw [whole, TagHead.split?_append equals, TagHead.split?_quoted quotes free, map_prepend_prepend]
      simp [PlainAttribute.ending]
  rw [print, List.append_assoc, TagHead.split?_append front, value, map_prepend_prepend]

/-- Where an attribute's name may end: no further character of a name and no equals sign follows. -/
def Ends (rest : Text) : Prop := rest.head?.all (fun c => !Attribute.isNamePart c) = true ∧ (Text.trimLeft rest).head? ≠ some '='

/-- Behind its gap an attribute is scanned into its name and value. -/
theorem step_print (sound : attr.isSound = true) {rest : Text} (ends : Ends rest) :
    Attribute.step (attr.name ++ attr.ending ++ rest) = .found attr.scanned rest := by
  have name : Attribute.IsName attr.name := by
    obtain ⟨c, tail, named, plain⟩ := isNamePart_of_isSound sound
    rw [named]
    refine ⟨List.cons_ne_nil c tail, fun d member => ?_⟩
    have inName := plain d member
    simp only [isPlainNamePart, Bool.and_eq_true] at inName
    exact inName.1.1
  have spelled : Attribute.Spelled attr.scanned rest := by
    cases attr with
    | bare gap word =>
      have bare := Attribute.Spelled.bare name ends.1 ends.2
      simpa [scanned, PlainAttribute.name, value?, PlainAttribute.ending] using bare
    | quoted gap word left right quote text =>
      simp only [isSound, isValued, Bool.and_eq_true, List.all_eq_true, bne_iff_ne] at sound
      obtain ⟨-, ⟨⟨leftSpace, rightSpace⟩, quotes⟩, free⟩ := sound
      have valued := Attribute.Spelled.valued name leftSpace rightSpace (isBlank_of_isQuote quotes)
        (Attribute.readValue_quoted quotes free rest)
      simpa [scanned, PlainAttribute.name, value?, PlainAttribute.ending] using valued
  exact spelled.step_eq

theorem isSound_mask (sound : attr.isSound = true) : attr.mask.isSound = true := by
  cases attr with
  | bare gap name => exact sound
  | quoted gap name left right quote text =>
    simp only [mask, isSound, isValued, Bool.and_eq_true, List.all_eq_true, bne_iff_ne] at sound ⊢
    obtain ⟨front, ⟨spaces, quotes⟩, free⟩ := sound
    have plain : Placeholder.isBrace quote = false ∧ isReserved quote = false := by
      rcases isQuote_iff.1 quotes with rfl | rfl <;> decide
    refine ⟨front, ⟨spaces, quotes⟩, fun c member => ?_⟩
    obtain ⟨d, inText, rfl⟩ := List.mem_map.1 member
    exact fun same => free d inText ((Fetch.maskChar_eq_iff plain.1 plain.2).1 same)

theorem print_mask (sound : attr.isSound = true) : attr.mask.print = attr.print.map Fetch.maskChar := by
  simp only [isSound, Bool.and_eq_true, List.all_eq_true] at sound
  obtain ⟨⟨⟨⟨-, apart⟩, -⟩, named⟩, valued⟩ := sound
  have gapKept := Fetch.map_maskChar_of_free fun c member => (flat_of_isGapPart (apart c member)).2.2
  have nameKept := Fetch.map_maskChar_of_free fun c member => (flat_of_isPlainNamePart (named c member)).2.2
  have valueMasked : attr.mask.ending = attr.ending.map Fetch.maskChar := by
    cases attr with
    | bare gap name => rfl
    | quoted gap name left right quote text =>
      simp only [isValued, Bool.and_eq_true, List.all_eq_true] at valued
      obtain ⟨⟨⟨leftSpace, rightSpace⟩, quotes⟩, -⟩ := valued
      have spaceKept {space : Text} (spaces : ∀ c ∈ space, isBlank c = true) : space.map Fetch.maskChar = space :=
        Fetch.map_maskChar_of_free fun c member =>
          (flat_of_isGapPart (by rw [isGapPart, spaces c member, Bool.true_or])).2.2
      have quoteKept : Fetch.maskChar quote = quote := by
        rcases isQuote_iff.1 quotes with rfl | rfl <;> decide
      have equals : Fetch.maskChar '=' = '=' := by decide
      simp [mask, PlainAttribute.ending, spaceKept leftSpace, spaceKept rightSpace, quoteKept, equals]
  have kept : attr.mask.gap = attr.gap ∧ attr.mask.name = attr.name := by cases attr <;> exact ⟨rfl, rfl⟩
  rw [print, print, List.map_append, List.map_append, gapKept, nameKept, valueMasked, kept.1, kept.2]

end PlainAttribute

/-- White space and slashes are passed over. -/
theorem Attribute.scan_gap {gap : Text} (parts : ∀ c ∈ gap, isGapPart c = true) (rest : Text) :
    scan (gap ++ rest) = scan rest := by
  induction gap with
  | nil => rfl
  | cons c gap ih =>
    have later := ih fun d member => parts d (List.mem_cons_of_mem c member)
    have here := parts c List.mem_cons_self
    simp only [isGapPart, Bool.or_eq_true, beq_iff_eq] at here
    rcases here with blank | rfl
    · rw [List.cons_append, ← scan_trimLeft, Text.trimLeft, List.dropWhile_cons_of_pos blank]
      exact (scan_trimLeft _).trans later
    · have skips : step ('/' :: (gap ++ rest)) = .skipped (gap ++ rest) := by
        rw [step, Text.trimLeft_cons_of_not_blank (by decide)]
        rfl
      rw [List.cons_append, scan_of_skipped skips, later]

theorem ends_of_gap {gap rest : Text} (parts : ∀ c ∈ gap, isGapPart c = true)
    (first : rest.head?.all (fun c => !isBlank c && c != '=') = true) (apart : gap = [] → rest = []) :
    PlainAttribute.Ends (gap ++ rest) := by
  constructor
  · cases gap with
    | nil =>
      rw [apart rfl]
      rfl
    | cons c gap =>
      have stops := isNamePart_of_isGapPart (parts c List.mem_cons_self)
      simp [stops]
  · clear apart
    induction gap with
    | nil =>
      cases rest with
      | nil => exact Option.some_ne_none _ |>.symm
      | cons c rest =>
        simp only [List.head?_cons, Option.all_some, Bool.and_eq_true, Bool.not_eq_true', bne_iff_ne] at first
        rw [List.nil_append, Text.trimLeft_cons_of_not_blank first.1]
        exact fun same => first.2 (Option.some.inj same)
    | cons c gap ih =>
      have here := parts c List.mem_cons_self
      simp only [isGapPart, Bool.or_eq_true, beq_iff_eq] at here
      rcases here with blank | rfl
      · rw [List.cons_append, Text.trimLeft, List.dropWhile_cons_of_pos blank]
        exact ih fun d member => parts d (List.mem_cons_of_mem c member)
      · rw [List.cons_append, Text.trimLeft_cons_of_not_blank (by decide)]
        exact fun same => absurd (Option.some.inj same) (by decide)

section Printed

variable {attributes : List PlainAttribute} {tail : Text} (sound : ∀ attr ∈ attributes, attr.isSound = true)
  (gap : ∀ c ∈ tail, isGapPart c = true)
include sound gap

/-- What follows an attribute lets its name end. -/
theorem ends_print : PlainAttribute.Ends (attributes.flatMap PlainAttribute.print ++ tail) := by
  cases attributes with
  | nil =>
    have ends : PlainAttribute.Ends (tail ++ []) := ends_of_gap gap rfl fun _ => rfl
    rwa [List.append_nil] at ends
  | cons attr attributes =>
    obtain ⟨c, name, named, plain⟩ := PlainAttribute.isNamePart_of_isSound (sound attr List.mem_cons_self)
    have attrSound := sound attr List.mem_cons_self
    simp only [PlainAttribute.isSound, Bool.and_eq_true, List.all_eq_true, bne_iff_ne] at attrSound
    obtain ⟨⟨⟨⟨nonempty, parts⟩, -⟩, -⟩, -⟩ := attrSound
    have first := plain c List.mem_cons_self
    simp only [isPlainNamePart, Bool.and_eq_true] at first
    have solid := solid_of_isNamePart first.1.1
    have whole : (attr :: attributes).flatMap PlainAttribute.print ++ tail =
        attr.gap ++ (c :: (name ++ (attr.ending ++ (attributes.flatMap PlainAttribute.print ++ tail)))) := by
      rw [List.flatMap_cons, PlainAttribute.print, named]
      simp
    rw [whole]
    refine ends_of_gap parts ?_ fun empty => absurd empty nonempty
    simp [solid]

/-- Printed attributes are read up to the `>` behind them. -/
theorem TagHead.read?_print (rest : Text) :
    read? (attributes.flatMap PlainAttribute.print ++ tail ++ '>' :: rest) =
      some (attributes.flatMap PlainAttribute.print ++ tail, rest) := by
  rw [read?]
  induction attributes with
  | nil =>
    rw [List.flatMap_nil, List.nil_append, split?_append fun c member => flat_of_isGapPart (gap c member),
      split?, if_pos ⟨rfl, rfl⟩, Option.map_some, prepend, Prod.map, List.append_nil, id]
  | cons attr attributes ih =>
    have later := ih fun other member => sound other (List.mem_cons_of_mem attr member)
    rw [List.flatMap_cons, List.append_assoc, List.append_assoc,
      PlainAttribute.split?_print (sound attr List.mem_cons_self), ← List.append_assoc, later, Option.map_some, prepend,
      Prod.map, List.append_assoc, id]

/-- Printed attributes are scanned one by one. -/
theorem Attribute.tokenize_print :
    tokenize (attributes.flatMap PlainAttribute.print ++ tail) = attributes.map PlainAttribute.scanned := by
  rw [tokenize]
  induction attributes with
  | nil =>
    have nothing := scan_gap gap []
    rw [List.append_nil, scan_nil] at nothing
    rw [List.flatMap_nil, List.nil_append, nothing]
    rfl
  | cons attr attributes ih =>
    have later : ∀ other ∈ attributes, other.isSound = true :=
      fun other member => sound other (List.mem_cons_of_mem attr member)
    have here := sound attr List.mem_cons_self
    have found := PlainAttribute.step_print here (ends_print later gap)
    have whole : (attr :: attributes).flatMap PlainAttribute.print ++ tail =
        attr.gap ++ (attr.name ++ attr.ending ++ (attributes.flatMap PlainAttribute.print ++ tail)) := by
      simp [PlainAttribute.print]
    simp only [PlainAttribute.isSound, Bool.and_eq_true, List.all_eq_true] at here
    rw [whole, scan_gap here.1.1.1.2, scan_of_found found, List.map_cons, ih later]

end Printed

namespace IsPlainHead

variable {head : Text}

/-- A plain head is read up to the `>` behind it. -/
theorem read? (plain : IsPlainHead head) (rest : Text) : TagHead.read? (head ++ '>' :: rest) = some (head, rest) := by
  obtain ⟨attributes, tail, sound, gap, rfl⟩ := plain
  exact TagHead.read?_print (fun attr member => (sound attr member).1) gap rest

/-- A plain head holds no attribute but those that it is spelled with. -/
theorem isInert_of_mem (plain : IsPlainHead head) :
    ∀ attr ∈ Attribute.tokenize head, attr.name ≠ "fetch" ∧ Fetch.isDirectiveName attr.name = false := by
  obtain ⟨attributes, tail, sound, gap, rfl⟩ := plain
  rw [Attribute.tokenize_print (fun attr member => (sound attr member).1) gap, List.forall_mem_map]
  intro attr member
  have inert := (sound attr member).2
  simp only [PlainAttribute.isInert, Bool.and_eq_true, bne_iff_ne, Bool.not_eq_true'] at inert
  exact inert

theorem request?_eq_none (plain : IsPlainHead head) : Fetch.request? head = none := by
  rw [Fetch.request?, Attribute.find?, List.find?_eq_none.2, Option.bind_none]
  intro attr member
  simpa using (plain.isInert_of_mem attr member).1

/-- Masking the braces of a plain head leaves it plain. -/
theorem map_maskChar (plain : IsPlainHead head) : IsPlainHead (head.map Fetch.maskChar) := by
  obtain ⟨attributes, tail, sound, gap, rfl⟩ := plain
  refine ⟨attributes.map PlainAttribute.mask, tail, fun attr member => ?_, gap, ?_⟩
  · obtain ⟨other, listed, rfl⟩ := List.mem_map.1 member
    refine ⟨PlainAttribute.isSound_mask (sound other listed).1, ?_⟩
    have inert := (sound other listed).2
    cases other <;> exact inert
  · have tailKept := Fetch.map_maskChar_of_free fun c member => (flat_of_isGapPart (gap c member)).2.2
    rw [List.map_append, tailKept, List.flatMap_map, List.map_flatMap]
    congr 1
    rw [List.flatMap_def, List.flatMap_def]
    exact congrArg List.flatten
      (List.map_congr_left fun attr member => (PlainAttribute.print_mask (sound attr member).1).symm)

end IsPlainHead

end ComponentPages
