import ComponentPages.Proofs.Markup.Forest
import ComponentPages.Proofs.Markup.Rereading
import ComponentPages.Proofs.Markup.Paragraph

/-!
Components that hand one prop on. Each of them puts the next one's tag in an element, and the last one shows the prop,
or closes a circle. The names are any that a component may have, so they may be those of scripts and styles: such a tag
closes itself, and nothing that a pass reads as a block is ever closed.
-/
namespace ComponentPages

open Compile (Gives LeadsTo)

/-! ### What no closing tag ends -/

/-- What begins nowhere in a text begins nowhere in what it ends with. -/
theorem Pattern.Absent.suffix {α : Type} {read : Pattern α} {text part : Text} (absent : Absent read text)
    (ends : part <:+ text) : Absent read part := by
  obtain ⟨front, rfl⟩ := ends
  exact (absent_append_iff.1 absent).2

/-- A text without closing tags of a block holds no block of that name. -/
theorem Block.absent_named_of_unclosed {word html : Text}
    (unclosed : Pattern.Absent (closing? (Text.afterFolded? word)) html) : Pattern.Absent (named word) html := by
  rintro before c after rfl
  rw [List.append_nil]
  unfold named
  cases opens : opening? word (c :: after) with
  | none => rfl
  | some found =>
    obtain ⟨written, contents⟩ := found
    have inside : contents <:+ before ++ c :: after :=
      calc contents <:+ c :: after := (exists_of_opening? opens).2
        _ <:+ before ++ c :: after := List.suffix_append before (c :: after)
    rw [Option.bind_eq_bind, Option.bind_some]
    dsimp only
    rw [Pattern.seek?_of_absent (unclosed.suffix inside)]
    rfl

theorem Signal.suffix_of_unquote {text rest : Text} (found : block.unquote text = some rest) : rest <:+ text := by
  cases text with
  | nil => cases found
  | cons c text =>
    rw [block.unquote] at found
    split at found
    · rw [← Option.some.inj found]
      exact List.suffix_cons c text
    · cases found

theorem Text.suffix_of_after? {token text rest : Text} (found : after? token text = some rest) : rest <:+ text := by
  rw [eq_of_after? found]
  exact List.suffix_append token rest

theorem Text.suffix_of_afterFolded? {word text rest : Text} (found : afterFolded? word text = some rest) :
    rest <:+ text := by
  obtain ⟨written, rfl, -⟩ := eq_of_afterFolded? found
  exact List.suffix_append written rest

theorem Text.trimLeft_suffix (text : Text) : trimLeft text <:+ text := List.dropWhile_suffix _

/-- Nor does it hold a script of the dialect. -/
theorem Signal.absent_block_of_unclosed {html : Text}
    (unclosed : Pattern.Absent (Block.closing? (Text.afterFolded? "script")) html) : Pattern.Absent block html := by
  rintro before c after rfl
  rw [List.append_nil, Option.eq_none_iff_forall_ne_some]
  intro found reads
  simp only [block, bind, Option.bind_eq_some_iff] at reads
  obtain ⟨opened, angle, named, script, reads⟩ := reads
  split at reads
  · cases reads
  · simp only [Option.bind_eq_some_iff] at reads
    obtain ⟨afterType, type, afterEquals, equals, value, quote, afterName, dialect, ended, closingQuote, source, angleEnd,
      parts, seeks, -⟩ := reads
    have inside : source <:+ before ++ c :: after :=
      calc source <:+ Text.trimLeft ended := Text.suffix_of_after? angleEnd
        _ <:+ ended := Text.trimLeft_suffix ended
        _ <:+ afterName := suffix_of_unquote closingQuote
        _ <:+ value := Text.suffix_of_afterFolded? dialect
        _ <:+ Text.trimLeft afterEquals := suffix_of_unquote quote
        _ <:+ afterEquals := Text.trimLeft_suffix afterEquals
        _ <:+ Text.trimLeft afterType := Text.suffix_of_after? equals
        _ <:+ afterType := Text.trimLeft_suffix afterType
        _ <:+ Text.trimLeft named := Text.suffix_of_afterFolded? type
        _ <:+ named := Text.trimLeft_suffix named
        _ <:+ opened := Text.suffix_of_afterFolded? script
        _ <:+ c :: after := Text.suffix_of_after? angle
        _ <:+ before ++ c :: after := List.suffix_append before (c :: after)
    rw [Pattern.seek?_of_absent (unclosed.suffix inside)] at seeks
    cases seeks

namespace Relay

/-! ### A tag that hands a prop on -/

/-- Where the tag of a component stands: on the page, in the template of another, or in its source. -/
inductive Place where
  | page
  | template
  | source (type : ValueType)
deriving DecidableEq

namespace Place

def front : Place → Text
  | .page => []
  | .template => "<t>"
  | .source type => "<t props='p " ++ type.name ++ "'>"

def back : Place → Text
  | .page => []
  | .template | .source _ => "</t>"

/-- The name of the value that is handed on. -/
def word : Place → Text
  | .page => "x"
  | .template | .source _ => "p"

def attributes (place : Place) : Text := " p=\x7b" ++ place.word ++ "\x7d "

theorem isAttributeText_attributes (place : Place) : isAttributeText place.attributes = true := by
  cases place with
  | page => decide
  | template | source type => exact (by decide : isAttributeText " p=\x7bp\x7d " = true)

theorem isBetween_front (place : Place) : isBetween place.front = true := by
  cases place with
  | page | template => decide +kernel
  | source type => cases type <;> decide +kernel

/-- An element may open in front of the tag. -/
theorem front_cases (place : Place) : place.front = [] ∨
    ∃ tail, place.front = '<' :: 't' :: tail ∧ ∀ c ∈ tail, c ≠ '<' := by
  cases place with
  | page => exact .inl rfl
  | template => exact .inr ⟨">", rfl, by decide⟩
  | source type => exact .inr ⟨" props='p " ++ type.name ++ "'>", rfl, by cases type <;> decide⟩

/-- What stands around the tag is sound, and it shows no value. -/
theorem exists_pieces (place : Place) (placed : ∀ type, place ≠ .source type) : ∃ before after : List Piece,
    (∀ piece ∈ before, piece.isSound = true) ∧ (∀ piece ∈ after, piece.isSound = true) ∧
      place.front = printPieces before ∧ place.back = printPieces after ∧
        ∀ scope, before.mapM (Piece.fill scope) = .ok before ∧ after.mapM (Piece.fill scope) = .ok after := by
  cases place with
  | page => exact ⟨[], [], by simp, by simp, rfl, rfl, fun scope => ⟨rfl, rfl⟩⟩
  | template => exact ⟨[.opening "t" [] false], [.closing "t"], by decide, by decide, rfl, rfl, fun scope => ⟨rfl, rfl⟩⟩
  | source type => exact absurd rfl (placed type)

end Place

/-- The tag of a component in its place. -/
def handing (place : Place) (name : Text) : Text :=
  place.front ++ (openTag name (place.attributes ++ ['/']) ++ place.back)

variable {place : Place} {name : Text} (pascal : isPascalCase name = true)
include pascal

theorem exists_of_isPascalCase : ∃ c rest, name = c :: rest ∧ c.isUpper = true := by
  cases name with
  | nil => cases pascal
  | cons c rest =>
    simp only [isPascalCase, Bool.and_eq_true] at pascal
    exact ⟨c, rest, rfl, pascal.1⟩

/-- A pattern that begins with an angle bracket has to begin at one of the tags. -/
theorem passes_openTag {α : Type} {read : Pattern α} (angled : ∀ c text, c ≠ '<' → read (c :: text) = none)
    (opening : ∀ c text, c.isUpper = true → read ('<' :: c :: text) = none) {head : Text} (isHead : IsHead head)
    (rest : Text) : Pattern.Passes read (openTag name head) rest := by
  have free := free_openTag pascal isHead
  obtain ⟨c, tail, rfl, upper⟩ := exists_of_isPascalCase pascal
  have whole : openTag (c :: tail) head = '<' :: (c :: tail ++ head ++ ['>']) := rfl
  rw [whole, Pattern.passes_cons_iff]
  refine ⟨?_, Pattern.passes_of_begins rest fun d member text => angled d text (free d member)⟩
  simp only [List.cons_append]
  exact opening c _ upper

theorem absent_angled {α : Type} {read : Pattern α} (angled : ∀ c text, c ≠ '<' → read (c :: text) = none)
    (opening : ∀ c text, c.isUpper = true ∨ c = 't' → read ('<' :: c :: text) = none)
    (closing : read "</t>" = none) : Pattern.Absent read (handing place name) := by
  have isHead := isHead_concat_slash place.isAttributeText_attributes
  have behind : Pattern.Absent read place.back := by
    cases place with
    | page => exact Pattern.passes_nil read []
    | template | source type =>
      refine Pattern.passes_cons_iff.2 ⟨closing, Pattern.passes_of_begins [] fun c member text => angled c text ?_⟩
      exact (by decide : ∀ c ∈ ("/t>" : Text), c ≠ '<') c member
  rw [handing, Pattern.absent_append_iff, Pattern.absent_append_iff]
  refine ⟨?_, passes_openTag pascal angled (fun c text upper => opening c text (.inl upper)) isHead _, behind⟩
  rcases place.front_cases with none | ⟨tail, begins, free⟩
  · rw [none]
    exact Pattern.passes_nil read _
  · rw [begins, Pattern.passes_cons_iff]
    refine ⟨opening 't' _ (.inr rfl), Pattern.passes_of_begins _ fun c member text => angled c text ?_⟩
    rcases List.mem_cons.1 member with rfl | inTail
    · decide
    · exact free c inTail

theorem absent_closing {word : Text} (block : word = "script" ∨ word = "style") :
    Pattern.Absent (Block.closing? (Text.afterFolded? word)) (handing place name) := by
  refine absent_angled pascal (Block.closing?_of_ne _) ?_ ?_
  · intro c text letter
    have other : '/' ≠ c := by
      rintro rfl
      exact absurd letter (by decide)
    simp [Block.closing?, Text.after?, other]
  · rcases block with rfl | rfl <;> decide

theorem spans_handing : Block.spans (handing place name) = [] :=
  Block.spans_of_absent (Block.absent_guarded_of_unclosed fun _ block => absent_closing pascal block)

/-- The text in front of the only opening brace, and what stands behind it. -/
def opened (place : Place) (name : Text) : Text := place.front ++ '<' :: name ++ " p="

omit pascal in
theorem handing_eq (place : Place) (name : Text) :
    handing place name = opened place name ++ '\x7b' :: (place.word ++ ("\x7d />" ++ place.back)) := by
  simp [handing, opened, openTag, Place.attributes]

omit pascal in
theorem braceless_behind (place : Place) : ∀ c ∈ place.word ++ ("\x7d />" ++ place.back), c ≠ '\x7b' := by
  cases place with
  | page | template => decide
  | source type => exact (by decide : ∀ c ∈ ("p\x7d /></t>" : Text), c ≠ '\x7b')

theorem braceless_opened : ∀ c ∈ opened place name, c ≠ '\x7b' := by
  have inFront : ∀ c ∈ place.front, c ≠ '\x7b' := by
    cases place with
    | page | template => decide
    | source type => cases type <;> decide
  intro c member
  rcases List.mem_append.1 member with inTag | inHead
  · rcases List.mem_append.1 inTag with front | tag
    · exact inFront c front
    · rcases List.mem_cons.1 tag with rfl | inName
      · decide
      · exact ne_of_isTagNamePart (isTagNamePart_of_isPascalCase pascal c inName) (by decide)
  · exact (by decide : ∀ c ∈ (" p=" : Text), c ≠ '\x7b') c inHead

/-- A pattern that begins with a brace has to begin at the only one. -/
theorem absent_braced {α : Type} {read : Pattern α} (braced : ∀ c text, c ≠ '\x7b' → read (c :: text) = none)
    (here : read ('\x7b' :: (place.word ++ ("\x7d />" ++ place.back))) = none) :
    Pattern.Absent read (handing place name) := by
  rw [handing_eq, Pattern.absent_append_iff]
  constructor
  · exact Pattern.passes_of_begins _ fun c member text => braced c text (braceless_opened pascal c member)
  · refine Pattern.passes_cons_iff.2 ⟨by rwa [List.append_nil], ?_⟩
    exact Pattern.passes_of_begins [] fun c member text => braced c text (braceless_behind place c member)

/-- Nor does one that begins with two braces. -/
theorem absent_doubled {α : Type} {read : Pattern α}
    (doubled : ∀ text, Text.after? "\x7b\x7b" text = none → read text = none) :
    Pattern.Absent read (handing place name) := by
  refine absent_braced pascal (fun c text other => doubled _ (by simp [Text.after?, other.symm])) (doubled _ ?_)
  cases place with
  | page | template => decide
  | source type => rfl

omit pascal in
/-- What ends in a word of one letter and an equals sign does not end as the start of a handler does. -/
theorem not_event {earlier before event left right : Text} (named : Signal.IsEvent event) (leftSpace : IsSpace left)
    (rightSpace : IsSpace right) : earlier ++ " p=" ≠ before ++ (event ++ left ++ '=' :: right) := by
  intro same
  have backwards : '=' :: 'p' :: ' ' :: earlier.reverse =
      right.reverse ++ '=' :: (left.reverse ++ (event.reverse ++ before.reverse)) := by
    have reversed := congrArg List.reverse same
    simpa using reversed
  have rightBlank : ∀ c ∈ right.reverse, isBlank c = true := fun c member => rightSpace c (List.mem_reverse.1 member)
  have leftBlank : ∀ c ∈ left.reverse, isBlank c = true := fun c member => leftSpace c (List.mem_reverse.1 member)
  have alphabetic : ∀ c ∈ event.reverse, c.isAlpha = true := fun c member => named.isAlpha c (List.mem_reverse.1 member)
  have long : 2 ≤ event.reverse.length := by
    obtain ⟨letters, -, -, rfl⟩ := named
    simp
  cases space : right.reverse with
  | cons c others =>
    rw [space] at backwards rightBlank
    obtain ⟨rfl, -⟩ := List.cons.inj backwards
    exact absurd (rightBlank '=' List.mem_cons_self) (by decide)
  | nil =>
    rw [space, List.nil_append, List.cons.injEq] at backwards
    cases gap : left.reverse with
    | cons c others =>
      rw [gap] at backwards leftBlank
      obtain ⟨rfl, -⟩ := List.cons.inj backwards.2
      exact absurd (leftBlank 'p' List.mem_cons_self) (by decide)
    | nil =>
      rw [gap, List.nil_append] at backwards
      match spelled : event.reverse, long with
      | c :: d :: others, _ =>
        rw [spelled] at backwards alphabetic
        obtain ⟨-, later⟩ := List.cons.inj backwards.2
        obtain ⟨rfl, -⟩ := List.cons.inj later
        exact absurd (alphabetic ' ' (by simp)) (by decide)

/-- A handler would have to be spelled in front of the brace. -/
theorem absent_handlerStart : Pattern.Absent Signal.handlerStart (handing place name) := by
  rintro before c after whole
  rw [List.append_nil, Option.eq_none_iff_forall_ne_some]
  rintro ⟨event, body⟩ starts
  obtain ⟨left, right, named, leftSpace, rightSpace, spelled⟩ := Signal.handlerStart_eq_some_iff.1 starts
  rw [spelled, handing_eq, ← List.append_assoc before] at whole
  have front := (List.append_cons_inj_of_notMem (fun member => braceless_opened pascal _ member rfl)
    fun member => braceless_behind place _ member rfl).1 whole
  exact not_event named leftSpace rightSpace front.1

/-! ### The passes over the tag -/

theorem lower_handing (scope : Scope) : Signal.lower (handing place name) scope = pure (handing place name) := by
  have unscripted := Signal.absent_block_of_unclosed (@absent_closing place name pascal _ (.inl rfl))
  refine Signal.lower_of_quiet (Pattern.values_of_absent unscripted) (Pattern.erase_of_absent unscripted) ?_ scope
  rw [Signal.parts, spans_handing pascal]
  refine @Signal.partsFrom_of_quiet _ [] _ rfl (fun part c after whole handles => ?_) none
  have here := absent_handlerStart pascal part c after whole
  rw [List.append_nil] at here
  exact handles.1 here

theorem seek?_handing : Conditional.seek? (handing place name) = none := by
  rw [Conditional.seek?, spans_handing pascal]
  refine Conditional.seekFrom?_of_absent (absent_braced pascal (fun c text other => Conditional.start_of_ne other text) ?_) 0
  cases place with
  | page | template => decide
  | source type => exact (by decide : Conditional.start "\x7bp\x7d /></t>" = none)

theorem next?_handing : ComponentTag.next? (handing place name) 0 =
    .ok (some ⟨place.front.length, place.front.length + (name.length + place.attributes.length + 3), name, true,
      Text.trim place.attributes, []⟩) := by
  have found := @ComponentTag.next?_closed (handing place name) [] place.front name place.attributes place.back
    (spans_handing pascal) rfl place.isBetween_front pascal place.isAttributeText_attributes
  rwa [List.length_nil, Nat.zero_add] at found

omit pascal in
theorem drop_handing : (handing place name).drop
    (place.front.length + (name.length + place.attributes.length + 3)) = place.back := by
  have whole : handing place name = (place.front ++ openTag name (place.attributes ++ ['/'])) ++ place.back := by
    rw [handing, List.append_assoc]
  have size : place.front.length + (name.length + place.attributes.length + 3) =
      (place.front ++ openTag name (place.attributes ++ ['/'])).length := by
    simp [openTag]
    omega
  rw [whole, size, List.drop_left]

theorem next?_behind : ComponentTag.next? (handing place name)
    (place.front.length + (name.length + place.attributes.length + 3)) = .ok none := by
  have unmarked : ∀ offset, ComponentTag.marksFrom [] offset place.back = [] := by
    intro offset
    cases place <;> rfl
  rw [ComponentTag.next?, ComponentTag.marks, spans_handing pascal, drop_handing, unmarked]
  rfl

/-- The only placeholder is an argument of the tag. -/
theorem inside_opened : opensTag isUpper (some '\x7b') (opened place name).reverse = true := by
  have free := free_openTag pascal (isHead_concat_slash place.isAttributeText_attributes)
  obtain ⟨c, tail, rfl, upper⟩ := exists_of_isPascalCase pascal
  have whole : opened place (c :: tail) = place.front ++ '<' :: c :: (tail ++ " p=") := by simp [opened]
  rw [whole, opensTag_inside]
  · simp [isUpper, upper]
  · intro d member
    rw [List.cons_append.symm, List.mem_append] at member
    rcases member with inName | inHead
    · exact isAngle_of_isTagNamePart (isTagNamePart_of_isPascalCase pascal d inName)
    · exact (by decide : ∀ d ∈ (" p=" : Text), isAngle d = false) d inHead

theorem substitute_handing (scope : Scope) :
    Placeholder.substitute (handing place name) scope = .ok (handing place name) := by
  have nonempty : place.word ≠ [] := by cases place <;> exact List.cons_ne_nil _ _
  have braceless : ∀ c ∈ place.word, Placeholder.isBrace c = false := by
    cases place with
    | page => decide
    | template | source type => exact (by decide : ∀ c ∈ ("p" : Text), Placeholder.isBrace c = false)
  have plain : ∀ c ∈ " />" ++ place.back, c ≠ '\x7b' := by
    cases place with
    | page => decide
    | template | source type => exact (by decide : ∀ c ∈ (" /></t>" : Text), c ≠ '\x7b')
  have whole : handing place name =
      opened place name ++ ('\x7b' :: place.word ++ ['\x7d'] ++ (" />" ++ place.back)) := by
    rw [handing_eq]
    simp
  have behind (before : Text) : Placeholder.fill scope before (Pattern.segments Placeholder.pattern (" />" ++ place.back)) =
      .ok (" />" ++ place.back) := by
    have none := @Placeholder.fill_passes _ [] plain scope before
    rw [List.append_nil] at none
    rw [none, Pattern.segments]
    simp [Placeholder.fill, Except.map]
  rw [Placeholder.substitute_eq_fill (spans_handing pascal), whole, Placeholder.fill_passes (braceless_opened pascal),
    List.nil_append, Placeholder.fill_braces nonempty braceless, inside_opened pascal, behind]
  rfl

theorem isReserved_of_mem_handing : ∀ c ∈ handing place name, isReserved c = false := by
  have inFront : ∀ c ∈ place.front, isReserved c = false := by
    cases place with
    | page | template => decide
    | source type => cases type <;> decide
  have behind : ∀ c ∈ '\x7b' :: (place.word ++ ("\x7d />" ++ place.back)), isReserved c = false := by
    cases place with
    | page | template => decide
    | source type => exact (by decide : ∀ c ∈ ("\x7bp\x7d /></t>" : Text), isReserved c = false)
  rw [handing_eq]
  intro c member
  rcases List.mem_append.1 member with inOpened | later
  · rcases List.mem_append.1 inOpened with inTag | inHead
    · rcases List.mem_append.1 inTag with front | tag
      · exact inFront c front
      · rcases List.mem_cons.1 tag with rfl | inName
        · decide
        · have part := isMentionPart_of_isTagNamePart (isTagNamePart_of_isPascalCase pascal c inName)
          have constant := isConstantPart_of_isMentionPart part
          simp only [isConstantPart, Bool.and_eq_true, Bool.not_eq_true'] at constant
          exact constant.2
    · exact (by decide : ∀ c ∈ (" p=" : Text), isReserved c = false) c inHead
  · exact behind c later

/-- Neither the element nor the tag fetches. -/
theorem unfetched_handing (placed : ∀ type, place ≠ .source type) : Fetch.next? (handing place name) 0 = none := by
  have free := free_openTag pascal (isHead_concat_slash place.isAttributeText_attributes)
  have unlisted (offset : Nat) (rest : Text) :
      Fetch.elementMarksFrom offset (openTag name (place.attributes ++ ['/']) ++ rest) =
        Fetch.elementMarksFrom (offset + (openTag name (place.attributes ++ ['/'])).length) rest := by
    obtain ⟨c, tail, rfl, upper⟩ := exists_of_isPascalCase pascal
    have whole : openTag (c :: tail) (place.attributes ++ ['/']) =
        '<' :: (c :: tail ++ (place.attributes ++ ['/']) ++ ['>']) := rfl
    have capital : Fetch.elementMark? offset
        ('<' :: (c :: tail ++ (place.attributes ++ ['/']) ++ ['>'] ++ rest)) = none := by
      simp [Fetch.elementMark?, Fetch.mark?, not_isLower_of_isUpper upper]
    rw [whole, List.cons_append, Fetch.elementMarksFrom_cons, capital, Option.toList_none, List.nil_append,
      Fetch.elementMarksFrom_free free, List.length_cons, Nat.add_right_comm, Nat.add_assoc]
  obtain ⟨before, after, beforeSound, afterSound, frontPrinted, backPrinted, -⟩ := place.exists_pieces placed
  rw [Fetch.next?, Fetch.elementMarks, spans_handing pascal, List.drop_zero, handing, frontPrinted, backPrinted]
  calc Fetch.siteOf? (Fetch.elementMarksFrom 0
          (printPieces before ++ (openTag name (place.attributes ++ ['/']) ++ printPieces after)))
    _ = Fetch.siteOf? (Fetch.elementMarksFrom (0 + (printPieces before).length)
          (openTag name (place.attributes ++ ['/']) ++ printPieces after)) :=
      Fetch.siteOf?_elementMarksFrom_append beforeSound 0 _
    _ = Fetch.siteOf? (Fetch.elementMarksFrom (0 + (printPieces before).length +
          (openTag name (place.attributes ++ ['/'])).length) (printPieces after)) := by rw [unlisted]
    _ = none := Fetch.siteOf?_elementMarksFrom afterSound _

theorem inject_handing : Slot.inject (handing place name) [] = handing place name := by
  have unmarked : Pattern.Absent Slot.marker (handing place name) := by
    refine absent_doubled pascal fun text single => ?_
    rw [Slot.marker, single]
    rfl
  have unslotted : Pattern.Absent Slot.placeholder (handing place name) := by
    refine absent_angled pascal (fun c text other => ?_) (fun c text letter => ?_) (by decide)
    · simp [Slot.placeholder, Text.after?, other.symm]
    · have other : 's' ≠ c := by
        rintro rfl
        exact absurd letter (by decide)
      simp [Slot.placeholder, Text.after?, other]
  rw [Slot.inject, Slot.normalize, Pattern.replace_of_absent unmarked, Pattern.replace_of_absent unslotted]

/-! ### Loading -/

def declared (type : ValueType) : Props := [("p", type)]

/-- The component that a source loads into. -/
def component (name template : Text) (type : ValueType) : Component where
  name := name
  template := template
  props := declared type
  scopeId := Component.scopeIdFor name
  css := []

omit pascal in
theorem split_source (type : ValueType) (name : Text) :
    Props.split (handing (.source type) name) = ("p " ++ type.name, handing .template name) := by
  have passes (rest : Text) : Pattern.Passes Props.listAttribute "<t" rest :=
    Pattern.passes_of_begins rest fun c member text => Props.listAttribute_of_not_blank
      ((by decide : ∀ c ∈ ("<t" : Text), isBlank c = false) c member) text
  have whole : handing (.source type) name =
      "<t" ++ ((⟨"props", .constant '\'' ("p " ++ type.name)⟩ : Mention).print ++
        ('>' :: (openTag name (Place.template.attributes ++ ['/']) ++ "</t>"))) := by
    cases type <;> rfl
  have declared : ("p " ++ type.name : Text).all isConstantPart = true := by cases type <;> decide
  have reads := @Props.listAttribute_print '\'' (by decide) _ declared
    ('>' :: (openTag name (Place.template.attributes ++ ['/']) ++ "</t>"))
  have found (rest : Text) (reads : Props.listAttribute ((⟨"props", .constant '\'' ("p " ++ type.name)⟩ : Mention).print ++ rest) =
      some ("p " ++ type.name, rest)) :
      Pattern.seek? Props.listAttribute ((⟨"props", .constant '\'' ("p " ++ type.name)⟩ : Mention).print ++ rest) =
        some ([], "p " ++ type.name, rest) := by
    obtain ⟨c, tail, begins⟩ : ∃ c tail, (⟨"props", .constant '\'' ("p " ++ type.name)⟩ : Mention).print ++ rest = c :: tail :=
      ⟨' ', _, rfl⟩
    rw [begins] at reads ⊢
    rw [Pattern.seek?, reads]
  rw [Props.split, whole, Pattern.seek?_append (passes _), found _ reads]
  rfl

theorem read_source (type : ValueType) :
    Props.read (handing (.source type) name) = .ok (declared type, handing .template name) := by
  have listed : (Text.pieces ',' ("p " ++ type.name)).foldlM Props.addListed [] = .ok (declared type) := by
    cases type <;> exact eq_ok_of_toOption (by decide +kernel)
  have unmarked : Pattern.Absent Props.propMarker (handing .template name) := by
    refine absent_doubled pascal fun text single => ?_
    rw [Props.propMarker, single]
    rfl
  have undrilled : Pattern.Absent Props.drillMarker (handing .template name) := by
    refine absent_doubled pascal fun text single => ?_
    rw [Props.drillMarker, single]
    rfl
  rw [Props.read, split_source]
  dsimp only
  rw [listed, Pattern.values_of_absent unmarked, Pattern.replace_of_absent unmarked, Pattern.replace_of_absent undrilled]
  rfl

omit pascal in
theorem trim_template : Text.trim (handing .template name) = handing .template name := by
  have whole : handing .template name = '<' :: (("t>" ++ (openTag name (Place.template.attributes ++ ['/']) ++ "</t")) ++ ['>']) := by
    rw [List.append_assoc, List.append_assoc]
    rfl
  rw [whole, Text.trim, Text.trimLeft_cons_of_not_blank (by decide), ← List.cons_append,
    Text.trimRight_concat_of_not_blank (by decide)]

omit pascal in
theorem trim_source (type : ValueType) : Text.trim (handing (.source type) name) = handing (.source type) name := by
  have whole : ∃ inner, handing (.source type) name = '<' :: (inner ++ ['>']) := by
    refine ⟨"t props='p " ++ (type.name ++ ("'>" ++ (openTag name (Place.template.attributes ++ ['/']) ++ "</t"))), ?_⟩
    rw [List.append_assoc, List.append_assoc, List.append_assoc, List.append_assoc]
    cases type <;> rfl
  obtain ⟨inner, whole⟩ := whole
  rw [whole, Text.trim, Text.trimLeft_cons_of_not_blank (by decide), ← List.cons_append,
    Text.trimRight_concat_of_not_blank (by decide)]

theorem absent_comment : Pattern.Absent RootElement.comment (handing place name) := by
  refine absent_angled pascal (fun c text other => ?_) (fun c text letter => ?_) (by decide)
  · simp [RootElement.comment, Text.after?, other.symm]
  · have other : '!' ≠ c := by
      rintro rfl
      exact absurd letter (by decide)
    simp [RootElement.comment, Text.after?, other]

/-- The closing tag of the template's element ends the template. -/
theorem isSingle_template : RootElement.isSingle (handing .template name) = true := by
  have isHead := isHead_concat_slash Place.template.isAttributeText_attributes
  let tag := openTag name (Place.template.attributes ++ ['/'])
  have whole : handing .template name = '<' :: 't' :: '>' :: (tag ++ "</t>") := rfl
  have passes : Pattern.Passes (Tag.named? "t") tag "</t>" := by
    refine passes_openTag pascal (Tag.named?_of_ne _) (fun c text upper => ?_) isHead _
    have noLetter : 't' ≠ c := by
      rintro rfl
      exact absurd upper (by decide)
    have noSlash : '/' ≠ c := by
      rintro rfl
      exact absurd upper (by decide)
    simp [Tag.named?, Text.after?, noLetter, noSlash]
  have ends : Tag.close? (handing .template name) "t" 3 = some ⟨3 + tag.length, 3 + tag.length + 4⟩ := by
    rw [Tag.close?, spans_handing pascal, whole]
    change Tag.closeFrom? [] "t" 1 3 (tag ++ "</t>") = _
    rw [Tag.closeFrom?_passes passes]
    rfl
  have after : RootElement.afterElement? (handing .template name) = some [] := by
    have start : (handing .template name).length - (tag ++ "</t>" : Text).length = 3 := by
      rw [whole, List.length_cons, List.length_cons, List.length_cons]
      omega
    have read : RootElement.openingName ('<' :: 't' :: '>' :: (tag ++ "</t>")) =
        some (("t" : Text), '>' :: (tag ++ "</t>")) := rfl
    have head : TagHead.read? ('>' :: (tag ++ "</t>")) = some ([], tag ++ "</t>") := rfl
    have size : (handing .template name).length ≤ 3 + tag.length + 4 := by
      rw [whole, List.length_cons, List.length_cons, List.length_cons, List.length_append]
      change tag.length + 4 + 1 + 1 + 1 ≤ _
      omega
    rw [RootElement.afterElement?]
    conv => lhs; arg 1; rw [whole, read]
    rw [Option.bind_eq_bind, Option.bind_some]
    dsimp only
    rw [head, Option.bind_some]
    dsimp only
    rw [if_neg (by decide), start, ends, Option.bind_eq_bind, Option.bind_some, List.drop_eq_nil_of_le size]
  have unscripted := Block.absent_named_of_unclosed (@absent_closing .template name pascal _ (.inl rfl))
  rw [RootElement.isSingle, Pattern.erase_of_absent (absent_comment pascal), Pattern.erase_of_absent unscripted,
    trim_template, after]
  rfl

omit pascal in
theorem load_source (pascal : isPascalCase name = true) {next : Text} (pascalNext : isPascalCase next = true)
    (type : ValueType) (path : Option Text) :
    Component.load name (handing (.source type) next) path false =
      .ok { component name (handing .template next) type with path } := by
  have unmarked : Pattern.Absent Slot.marker (handing .template next) := by
    refine absent_doubled pascalNext fun text single => ?_
    rw [Slot.marker, single]
    rfl
  have unstyled := Block.absent_named_of_unclosed (@absent_closing (.source type) next pascalNext _ (.inr rfl))
  have extracted : Stylesheet.extract (handing (.source type) next) (Component.scopeIdFor name) =
      (handing (.source type) next, []) := by
    rw [Stylesheet.extract, Pattern.erase_of_absent unstyled, Pattern.values_of_absent unstyled, trim_source]
    rfl
  have normal : Slot.normalize (handing .template next) = handing .template next := Pattern.replace_of_absent unmarked _
  simp only [Component.load, pascal, extracted, read_source pascalNext, Bool.not_true, Bool.false_eq_true, if_false, bind,
    Except.bind, normal, isSingle_template pascalNext, component]

/-! ### Expansion -/

section Expanding

open Expansion

variable {limit : Int} {workshop : Workshop} {stack : ExpansionStack limit} {value : Value}

/-- The scope of the place that a value is handed on to. -/
def given (place : Place) (value : Value) : Scope := [(place.word, value)]

omit pascal in
theorem resolve_arguments (place : Place) (value : Value) (strict : Bool) :
    Argument.resolve (Text.trim place.attributes) (given place value) (declared value.type) strict =
      .ok (given .template value) := by
  let mention : Mention := ⟨"p", .expression place.word⟩
  have sound : ∀ other ∈ [mention], other.isSound = true := by
    cases place with
    | page => decide
    | template | source type => exact (by decide : ∀ other ∈ [(⟨"p", .expression "p"⟩ : Mention)], other.isSound = true)
  have trimmed : Text.trim place.attributes = Text.trim ([mention].flatMap Mention.print) := by
    cases place with
    | page => decide
    | template | source type =>
      exact (by decide : Text.trim " p=\x7bp\x7d " = Text.trim ([(⟨"p", .expression "p"⟩ : Mention)].flatMap Mention.print))
  have bound : Expression.evaluate place.word (given place value) = .ok value := by
    refine Expression.evaluate_name ?_ (by simp [given])
    cases place with
    | page => decide +kernel
    | template | source type => exact (by decide +kernel : (Expression.read "p").term? = some (.name "p"))
  have here : mention.argument? (declared value.type) strict (given place value) = some (("p" : Text), value) := by
    rw [Mention.argument?, Written.meaning, bound]
    simp [mention, declared, Except.toOption, accepts, Bindings.get?]
  refine eq_ok_of_toOption ?_
  rw [trimmed, Argument.resolve_printed sound, Props.arguments?, List.mapM_cons, here]
  simp [declared, given, Place.word, Bindings.ofList, Bindings.set, Bindings.binds, withZeros]

omit pascal in
theorem expandFrom_empty : expandFrom workshop stack (given place value) [] 0 = pure [] :=
  @expandFrom_end limit workshop stack (given place value) [] (by simp)

/-- The tag's component is entered with the prop alone, and without a fill. -/
theorem leadsTo_enter (placed : ∀ type, place ≠ .source type) {component : Component}
    (registered : workshop.registry.find? name = some component) (named : component.name = name)
    (props : component.props = declared value.type) :
    (expandFrom workshop stack (given place value) (handing place name) 0).LeadsTo (do
      let entered ← Compile.lift (stack.enter name)
      let instance_ ← instantiate workshop component (given .template value) []
      let template ← Compile.lift (Conditional.settle instance_ (given .template value))
      let expanded ← expandFrom workshop entered (given .template value) template 0
      let rest ← expandFrom workshop stack (given place value) (handing place name)
        (place.front.length + (name.length + place.attributes.length + 3))
      pure (place.front ++ expanded ++ rest)) := by
  obtain ⟨before, after, beforeSound, afterSound, frontPrinted, backPrinted, kept⟩ := place.exists_pieces placed
  have front : Placeholder.substitute place.front (given place value) = .ok place.front := by
    rw [frontPrinted, Placeholder.substitute_printPieces beforeSound, (kept _).1]
    rfl
  have start : Text.slice (handing place name) 0 place.front.length = place.front := by
    rw [Text.slice, handing, List.take_left, List.drop_zero]
  have required : workshop.registry.require name = .ok component := by rw [Registry.require, registered]
  have arguments : (arguments workshop component (given place value) (Text.trim place.attributes)).LeadsTo
      (pure (given .template value)) := by
    refine LeadsTo.note ?_ _
    rw [props, resolve_arguments]
    exact LeadsTo.refl _
  have nothing : Conditional.settle [] (given place value) = .ok [] :=
    @Conditional.settle_printPieces [] (by simp) (given place value)
  rw [expandFrom_of_tag (next?_handing pascal)]
  refine LeadsTo.note ?_ _
  dsimp only
  rw [start, front, nothing]
  refine LeadsTo.lift rfl (LeadsTo.lift required (LeadsTo.bind_pure arguments (LeadsTo.note (LeadsTo.lift rfl ?_) _)))
  have unfilled : Slot.fills [] = [] := by
    rw [Slot.fills, Pattern.values, Pattern.segments]
    rfl
  rw [expandFrom_empty, pure_bind, named, unfilled]
  exact LeadsTo.note (LeadsTo.refl _) _

theorem returns_behind (placed : ∀ type, place ≠ .source type) :
    (expandFrom workshop stack (given place value) (handing place name)
      (place.front.length + (name.length + place.attributes.length + 3))).Returns (.ok place.back) := by
  obtain ⟨before, after, beforeSound, afterSound, frontPrinted, backPrinted, kept⟩ := place.exists_pieces placed
  have back : Placeholder.substitute place.back (given place value) = .ok place.back := by
    rw [backPrinted, Placeholder.substitute_printPieces afterSound, (kept _).2]
    rfl
  rw [expandFrom_of_none (next?_behind pascal), drop_handing, back]
  exact (LeadsTo.note (LeadsTo.refl _) _).returns (Compile.returns_lift _)

/-- Where the stack refuses the component, the expansion fails. -/
theorem returns_of_refused (placed : ∀ type, place ≠ .source type) {component : Component}
    (registered : workshop.registry.find? name = some component) (named : component.name = name)
    (props : component.props = declared value.type) {failure : Failure} (refuses : stack.enter name = .error failure) :
    (expandFrom workshop stack (given place value) (handing place name) 0).Returns (.error failure) := by
  refine (leadsTo_enter pascal placed registered named props).returns ?_
  rw [refuses]
  exact (Compile.returns_lift (.error failure)).bind_error _

/-- Where it does not, the tag stands for what the component's template comes to. -/
theorem returns_of_entered (placed : ∀ type, place ≠ .source type) {component : Component}
    (registered : workshop.registry.find? name = some component) (named : component.name = name)
    (props : component.props = declared value.type) {entered : ExpansionStack limit} (enters : stack.enter name = .ok entered)
    {result : Except Failure Text} (comes : (do
      let instance_ ← instantiate workshop component (given .template value) []
      let template ← Compile.lift (Conditional.settle instance_ (given .template value))
      expandFrom workshop entered (given .template value) template 0).Returns result) :
    (expandFrom workshop stack (given place value) (handing place name) 0).Returns
      (result.map (place.front ++ · ++ place.back)) := by
  refine (leadsTo_enter pascal placed registered named props).returns ?_
  rw [enters, Compile.lift_ok, pure_bind]
  have split (next : Text → Compile Text) : (do
      let instance_ ← instantiate workshop component (given .template value) []
      let template ← Compile.lift (Conditional.settle instance_ (given .template value))
      let expanded ← expandFrom workshop entered (given .template value) template 0
      next expanded) = (do
      let instance_ ← instantiate workshop component (given .template value) []
      let template ← Compile.lift (Conditional.settle instance_ (given .template value))
      expandFrom workshop entered (given .template value) template 0) >>= next := by
    simp only [bind_assoc]
  rw [split]
  cases result with
  | error failure => exact comes.bind_error _
  | ok expanded =>
    refine comes.bind_ok ((returns_behind pascal placed).bind_ok ?_)
    exact Compile.returns_lift (.ok (place.front ++ expanded ++ place.back))

omit pascal in
/-- A template that hands the prop on stands for the tag in it. -/
theorem leadsTo_template {component : Component} {next : Text} (pascal : isPascalCase next = true)
    (template : component.template = handing .template next) : (do
      let instance_ ← instantiate workshop component (given .template value) []
      let template ← Compile.lift (Conditional.settle instance_ (given .template value))
      expandFrom workshop stack (given .template value) template 0).LeadsTo
        (expandFrom workshop stack (given .template value) (handing .template next) 0) := by
  have unfetched := @unfetched_handing .template next pascal (by simp)
  have settled (scope : Scope) : Conditional.settle (handing .template next) scope = .ok (handing .template next) :=
    Conditional.settle_of_none (seek?_handing pascal) scope
  rw [instantiate, template, lower_handing pascal, pure_bind, inject_handing pascal]
  simp only [bind_assoc]
  refine LeadsTo.bind_pure (leadsTo_mask unfetched) (LeadsTo.lift (settled _) ?_)
  refine LeadsTo.lift (substitute_handing pascal _) ?_
  rw [Signal.resolve_of_unreserved (isReserved_of_mem_handing pascal), Fetch.lower_of_none unfetched]
  simp only [bind_assoc, pure_bind]
  exact LeadsTo.note (LeadsTo.lift (settled _) (LeadsTo.refl _)) _

/-- The pieces of a template that shows the prop. -/
def showing : List Piece := [.opening "t" [] false, .placeholder "p", .closing "t"]

omit pascal in
/-- A template that shows the prop comes to the value's text in its element. -/
theorem returns_showing {component : Component} (template : component.template = printPieces showing)
    (clean : value.isClean = true) : (do
      let instance_ ← instantiate workshop component (given .template value) []
      let template ← Compile.lift (Conditional.settle instance_ (given .template value))
      expandFrom workshop stack (given .template value) template 0).Returns (.ok ("<t>" ++ value.render ++ "</t>")) := by
  have sound : ∀ piece ∈ showing, piece.isSound = true := by decide
  have rendered : value.render.all isTextPart = true := Value.isTextPart_render clean
  have evaluated : Expression.evaluate "p" (given .template value) = .ok value :=
    Expression.evaluate_name (by decide +kernel) (by simp [given, Place.word])
  have values : showing.mapM (Piece.fill (given .template value)) = .ok (enclosed value.render) := by
    simp only [showing, List.mapM_cons, List.mapM_nil, Piece.fill, evaluated]
    rfl
  have plain : ∀ piece ∈ enclosed value.render, piece.component? = none := by
    intro piece member
    simp only [enclosed, List.mem_cons, List.not_mem_nil, or_false] at member
    rcases member with rfl | rfl | rfl <;> rfl
  have unslotted : Slot.inject (printPieces showing) [] = printPieces showing := by decide +kernel
  rw [instantiate_reread sound template, unslotted, ← print_enclosed]
  exact (leadsTo_reread sound values).returns (gives_reread (isSound_enclosed rendered) plain rfl).returns

end Expanding

end Relay

/-! ### Chains of components -/

theorem ExpansionStack.enter_of_fresh {limit : Int} {stack : ExpansionStack limit} {name : Text}
    (fresh : name ∉ stack.names) (room : (stack.names.length : Int) < limit) :
    ∃ entered, stack.enter name = .ok entered ∧ entered.names = stack.names ++ [name] := by
  rw [enter, dif_neg fresh, dif_pos room]
  exact ⟨_, rfl, rfl⟩

theorem ExpansionStack.names_of_enter {limit : Int} {stack entered : ExpansionStack limit} {name : Text}
    (enters : stack.enter name = .ok entered) :
    entered.names = stack.names ++ [name] ∧ (stack.names.length : Int) < limit := by
  unfold enter at enters
  split at enters
  · cases enters
  · split at enters
    · next room =>
      rw [← Except.ok.inj enters]
      exact ⟨rfl, room⟩
    · cases enters

theorem ExpansionStack.kind_of_enter {limit : Int} {stack : ExpansionStack limit} {name : Text} {failure : Failure}
    (refuses : stack.enter name = .error failure) : failure.kind = .cyclicComponentReference := by
  unfold enter at refuses
  split at refuses
  · rw [← Except.error.inj refuses]
    rfl
  · split at refuses
    · cases refuses
    · rw [← Except.error.inj refuses]
      rfl

namespace Relay

/-- A component's template: it hands the prop on to the next component, or shows it. -/
def template : Option Text → Text
  | some next => handing .template next
  | none => "<t>\x7bp\x7d</t>"

def source (type : ValueType) : Option Text → Text
  | some next => "<t props='p " ++ type.name ++ "'><" ++ next ++ " p=\x7bp\x7d /></t>"
  | none => "<t props='p " ++ type.name ++ "'>\x7bp\x7d</t>"

/-- Components in a chain, each with the one it hands its prop on to; the last one hands it on as told. -/
def links (ending : Option Text) : List Text → List (Text × Option Text)
  | [] => []
  | [name] => [(name, ending)]
  | name :: next :: rest => (name, some next) :: links ending (next :: rest)

/-- A text in nested elements. -/
def nested (text : Text) : Nat → Text
  | 0 => text
  | depth + 1 => "<t>" ++ nested text depth ++ "</t>"

/-- Whether the registry has a component under a name, as it is linked. -/
def Knows (registry : Registry) (type : ValueType) (link : Text × Option Text) : Prop :=
  ∃ component, registry.find? link.1 = some component ∧ component.name = link.1 ∧ component.props = declared type ∧
    component.template = template link.2

/-! ### Loading a chain -/

section Loading

variable {ending : Option Text} {names : List Text}

theorem map_fst_links (ending : Option Text) (names : List Text) : (links ending names).map Prod.fst = names := by
  fun_induction links ending names with
  | case1 => rfl
  | case2 name => rfl
  | case3 name next rest ih => rw [List.map_cons, ih]

theorem mem_of_mem_links {link : Text × Option Text} (member : link ∈ links ending names) :
    link.1 ∈ names ∧ ∀ next, link.2 = some next → next ∈ names ∨ ending = some next := by
  fun_induction links ending names with
  | case1 => cases member
  | case2 name =>
    rw [List.mem_singleton.1 member]
    exact ⟨List.mem_cons_self, fun next same => .inr same⟩
  | case3 name next rest ih =>
    rcases List.mem_cons.1 member with rfl | later
    · exact ⟨List.mem_cons_self, fun other same => .inl (by rw [← Option.some.inj same]; simp)⟩
    · obtain ⟨listed, onward⟩ := ih later
      exact ⟨List.mem_cons_of_mem name listed, fun other same => (onward other same).imp_left (List.mem_cons_of_mem name)⟩

theorem exists_mem_links {name : Text} (member : name ∈ names) : ∃ next?, (name, next?) ∈ links ending names := by
  rw [← map_fst_links ending names] at member
  obtain ⟨⟨other, next?⟩, listed, rfl⟩ := List.mem_map.1 member
  exact ⟨next?, listed⟩

/-- A component that shows its prop, as it is written. -/
def shows (name : Text) (type : ValueType) : Outline where
  name := name
  quote := '\''
  declaration := "p " ++ type.name
  props := declared type
  root := { name := "t", mentions := [], closed := false, body := .placeholder "p" .done }

theorem load_link {link : Text × Option Text} (pascal : isPascalCase link.1 = true)
    (onward : ∀ next, link.2 = some next → isPascalCase next = true) (type : ValueType) :
    Component.load link.1 (source type link.2) none false = .ok (component link.1 (template link.2) type) := by
  obtain ⟨name, next?⟩ := link
  cases next? with
  | some next =>
    have written : source type (some next) = handing (.source type) next := by
      change "<t props='p " ++ type.name ++ ("'>" ++ ['<']) ++ next ++
          ((Place.source type).attributes ++ ['/'] ++ (['>'] ++ "</t>")) =
        "<t props='p " ++ type.name ++ "'>" ++
          ('<' :: next ++ ((Place.source type).attributes ++ ['/']) ++ ['>'] ++ "</t>")
      simp only [List.append_assoc, List.cons_append, List.nil_append]
    rw [written]
    exact load_source pascal (onward next rfl) type none
  | none =>
    have sound : (shows name type).isSound = true := by
      have declaring : (isQuote '\'' && ("p " ++ type.name : Text).all isConstantPart &&
          ((Text.pieces ',' ("p " ++ type.name)).foldlM Props.addListed []).toOption == some (declared type)) = true := by
        cases type <;> decide +kernel
      have root : ({ name := "t", mentions := [], closed := false, body := .placeholder "p" .done } : Root).isSound = true := by
        decide +kernel
      rw [Outline.isSound, shows, pascal, Bool.true_and, declaring, root]
      rfl
    have written : source type none = (shows name type).source := by cases type <;> rfl
    rw [written]
    exact Outline.load_source sound none false

/-- The sources of a chain load in any order, and each component is known as it is linked. -/
theorem exists_registry (type : ValueType) (distinct : names.Nodup) (pascal : ∀ name ∈ names, isPascalCase name = true)
    (returning : ∀ target, ending = some target → isPascalCase target = true) {listed : List (Text × Option Text)}
    (order : listed.Perm (links ending names)) : ∃ registry,
      Registry.ofSources (listed.map fun (name, next?) => (name, source type next?)) false = .ok registry ∧
        ∀ link ∈ links ending names, Knows registry type link := by
  have loads : ∀ link ∈ listed,
      Component.load link.1 (source type link.2) none false = .ok (component link.1 (template link.2) type) ∧
        (component link.1 (template link.2) type).name = link.1 := by
    intro link member
    obtain ⟨named, onward⟩ := mem_of_mem_links (order.mem_iff.1 member)
    refine ⟨load_link (pascal link.1 named) (fun next same => ?_) type, rfl⟩
    exact (onward next same).elim (pascal next) (returning next)
  have names : (listed.map Prod.fst).Nodup := by
    have same := order.map Prod.fst
    rw [map_fst_links] at same
    exact same.nodup_iff.2 distinct
  refine ⟨_, Registry.ofSources_map listed loads names, fun link member => ?_⟩
  have known : (listed.map fun link => component link.1 (template link.2) type).map Component.name = listed.map Prod.fst := by
    rw [List.map_map]
    rfl
  have found := @Registry.find?_of_mem ⟨listed.map fun link => component link.1 (template link.2) type⟩
    (by rwa [Registry.names, known]) _ (List.mem_map_of_mem (order.mem_iff.2 member))
  exact ⟨_, found, rfl, rfl, rfl⟩

end Loading

section Chain

open Expansion

variable {limit : Int} {workshop : Workshop} {value : Value}

/-- While there is room, the value arrives at the end of the chain. -/
theorem returns_nested (clean : value.isClean = true) {names : List Text} {name : Text} {place : Place}
    (placed : ∀ type, place ≠ .source type) {stack : ExpansionStack limit}
    (pascal : ∀ other ∈ name :: names, isPascalCase other = true)
    (known : ∀ link ∈ links none (name :: names), Knows workshop.registry value.type link)
    (distinct : (stack.names ++ name :: names).Nodup) (room : stack.names.length + (names.length + 1) ≤ limit) :
    (expandFrom workshop stack (given place value) (handing place name) 0).Returns
      (.ok (place.front ++ nested value.render (names.length + 1) ++ place.back)) := by
  induction names generalizing name place stack with
  | nil =>
    have here := pascal name List.mem_cons_self
    have fresh : name ∉ stack.names := fun member =>
      (List.nodup_append.1 distinct).2.2 name member name List.mem_cons_self rfl
    simp only [List.length_nil] at room
    obtain ⟨entered, enters, entering⟩ := ExpansionStack.enter_of_fresh fresh (by omega)
    obtain ⟨component, registered, named, props, shows⟩ := known (name, none) List.mem_cons_self
    exact returns_of_entered here placed registered named props enters (returns_showing shows clean)
  | cons next rest ih =>
    have here := pascal name List.mem_cons_self
    have later := fun other member => pascal other (List.mem_cons_of_mem name member)
    have fresh : name ∉ stack.names := fun member =>
      (List.nodup_append.1 distinct).2.2 name member name List.mem_cons_self rfl
    simp only [List.length_cons] at room
    obtain ⟨entered, enters, entering⟩ := ExpansionStack.enter_of_fresh fresh (by omega)
    obtain ⟨component, registered, named, props, hands⟩ := known (name, some next) List.mem_cons_self
    have below := @ih next .template (by simp) entered later
      (fun link member => known link (List.mem_cons_of_mem _ member)) (by simpa [entering] using distinct)
      (by rw [entering, List.length_append, List.length_singleton]; omega)
    exact returns_of_entered here placed registered named props enters
      ((leadsTo_template (later next List.mem_cons_self) hands).returns below)

/-- The stack refuses a component when there is no room, and when the chain comes back to one of its components. -/
theorem returns_refused {ending : Option Text} {names : List Text} {name : Text} {place : Place}
    (placed : ∀ type, place ≠ .source type) {stack : ExpansionStack limit}
    (pascal : ∀ other ∈ name :: names, isPascalCase other = true)
    (known : ∀ link ∈ links ending (name :: names), Knows workshop.registry value.type link)
    (returning : ∀ target, ending = some target →
      isPascalCase target = true ∧ ∃ next?, Knows workshop.registry value.type (target, next?))
    (stuck : limit < stack.names.length + (names.length + 1) ∨
      ∃ target, ending = some target ∧ target ∈ stack.names ++ name :: names) :
    ∃ failure : Failure, failure.kind = .cyclicComponentReference ∧
      (expandFrom workshop stack (given place value) (handing place name) 0).Returns (.error failure) := by
  induction names generalizing name place stack with
  | nil =>
    have here := pascal name List.mem_cons_self
    obtain ⟨component, registered, named, props, hands⟩ := known (name, ending) List.mem_cons_self
    cases enters : stack.enter name with
    | error failure =>
      exact ⟨failure, ExpansionStack.kind_of_enter enters, returns_of_refused here placed registered named props enters⟩
    | ok entered =>
      obtain ⟨entering, room⟩ := ExpansionStack.names_of_enter enters
      rcases stuck with full | ⟨target, rfl, circle⟩
      · simp only [List.length_nil] at full
        omega
      · obtain ⟨targetPascal, next?, other, otherRegistered, otherNamed, otherProps, -⟩ := returning target rfl
        rw [← entering] at circle
        have refuses : entered.enter target = .error (.cycle entered.names target) := dif_pos circle
        have below := @returns_of_refused .template target targetPascal limit workshop entered value (by simp) other
          otherRegistered otherNamed otherProps _ refuses
        refine ⟨.cycle entered.names target, rfl, ?_⟩
        exact returns_of_entered here placed registered named props enters
          ((leadsTo_template targetPascal hands).returns below)
  | cons next rest ih =>
    have here := pascal name List.mem_cons_self
    have later := fun other member => pascal other (List.mem_cons_of_mem name member)
    obtain ⟨component, registered, named, props, hands⟩ := known (name, some next) List.mem_cons_self
    cases enters : stack.enter name with
    | error failure =>
      exact ⟨failure, ExpansionStack.kind_of_enter enters, returns_of_refused here placed registered named props enters⟩
    | ok entered =>
      obtain ⟨entering, room⟩ := ExpansionStack.names_of_enter enters
      have stuckBelow : limit < entered.names.length + (rest.length + 1) ∨
          ∃ target, ending = some target ∧ target ∈ entered.names ++ next :: rest := by
        refine stuck.imp (fun full => ?_) fun ⟨target, same, member⟩ => ⟨target, same, by simpa [entering] using member⟩
        rw [entering, List.length_append, List.length_singleton]
        simp only [List.length_cons] at full
        omega
      obtain ⟨failure, kind, below⟩ := @ih next .template (by simp) entered later
        (fun link member => known link (List.mem_cons_of_mem _ member)) stuckBelow
      refine ⟨failure, kind, ?_⟩
      exact returns_of_entered here placed registered named props enters
        ((leadsTo_template (later next List.mem_cons_self) hands).returns below)

/-! ### Pages -/

/-- A page that is a component's tag comes to what the tag stands for. -/
theorem leadsTo_page {name : Text} (pascal : isPascalCase name = true) {stack : ExpansionStack limit} :
    (compilePage workshop stack (given .page value) true (handing .page name)).LeadsTo
      (expandFrom workshop stack (given .page value) (handing .page name) 0 >>= finish workshop) := by
  rw [compilePage, if_pos rfl, lower_handing pascal, pure_bind]
  refine LeadsTo.bind_pure (leadsTo_mask (unfetched_handing pascal (by simp))) ?_
  rw [expand, Conditional.settle_of_none (seek?_handing pascal), Compile.lift_ok, pure_bind]
  exact LeadsTo.refl _

/-- Text in nested elements. -/
def nestedPieces (text : Text) : Nat → List Piece
  | 0 => [.text text]
  | depth + 1 => .opening "t" [] false :: nestedPieces text depth ++ [.closing "t"]

theorem print_nestedPieces (text : Text) (depth : Nat) : printPieces (nestedPieces text depth) = nested text depth := by
  induction depth with
  | zero => exact List.append_nil text
  | succ depth ih =>
    rw [nestedPieces, List.cons_append, printPieces_cons, printPieces_append, ih, nested, List.append_assoc]
    rfl

theorem isSound_nestedPieces {text : Text} (clean : text.all isTextPart = true) (depth : Nat) :
    ∀ piece ∈ nestedPieces text depth, piece.isSound = true := by
  induction depth with
  | zero =>
    intro piece member
    rw [List.mem_singleton.1 member]
    exact clean
  | succ depth ih =>
    intro piece member
    simp only [nestedPieces, List.cons_append, List.mem_cons, List.mem_append, List.not_mem_nil, or_false] at member
    rcases member with rfl | inside | rfl
    · decide
    · exact ih piece inside
    · decide

theorem returns_finish (clean : value.isClean = true) (depth : Nat) :
    (finish workshop (nested value.render depth)).Returns (.ok (nested value.render depth)) := by
  rw [← print_nestedPieces]
  exact (gives_finish (isSound_nestedPieces (Value.isTextPart_render clean) depth)).returns

/-- What becomes of the tag on a page becomes of the page. -/
theorem compileFresh_of_returns {registry : Registry} {strict : Bool} {texts : ScriptTexts} {name : Text}
    (pascal : isPascalCase name = true) {result : Except Failure Text}
    (returns : (expandFrom { registry, strict, texts } (ExpansionStack.empty limit) (given .page value) (handing .page name) 0
      >>= finish { registry, strict, texts }).Returns result) :
    (compileFresh { registry, strict, texts } limit (given .page value) (handing .page name)).1 = result :=
  (leadsTo_page pascal).returns returns {}

theorem compileFresh_nested {registry : Registry} (strict : Bool) (texts : ScriptTexts) (clean : value.isClean = true)
    {name : Text} {names : List Text} (pascal : ∀ other ∈ name :: names, isPascalCase other = true)
    (known : ∀ link ∈ links none (name :: names), Knows registry value.type link) (distinct : (name :: names).Nodup)
    (room : (name :: names).length ≤ limit) :
    (compileFresh { registry, strict, texts } limit (given .page value) (handing .page name)).1 =
      .ok (nested value.render (name :: names).length) := by
  have arrives := @returns_nested limit { registry, strict, texts } value clean names name .page (by simp)
    (ExpansionStack.empty limit) pascal known distinct (by simpa [ExpansionStack.empty] using room)
  have bare (text : Text) : Place.page.front ++ text ++ Place.page.back = text := List.append_nil text
  rw [bare] at arrives
  exact compileFresh_of_returns (pascal name List.mem_cons_self) (arrives.bind_ok (returns_finish clean _))

theorem compileFresh_refused {registry : Registry} (strict : Bool) (texts : ScriptTexts) {ending : Option Text}
    {name : Text} {names : List Text} (pascal : ∀ other ∈ name :: names, isPascalCase other = true)
    (known : ∀ link ∈ links ending (name :: names), Knows registry value.type link)
    (stuck : limit < (name :: names).length ∧ ending = none ∨ ∃ target ∈ name :: names, ending = some target) :
    ∃ failure, (compileFresh { registry, strict, texts } limit (given .page value) (handing .page name)).1 = .error failure ∧
      failure.kind = .cyclicComponentReference := by
  have returning : ∀ target, ending = some target →
      isPascalCase target = true ∧ ∃ next?, Knows registry value.type (target, next?) := by
    rintro target rfl
    have member : target ∈ name :: names := by
      rcases stuck with ⟨-, same⟩ | ⟨other, member, same⟩
      · cases same
      · rwa [Option.some.inj same]
    obtain ⟨next?, linked⟩ := @exists_mem_links (some target) _ _ member
    exact ⟨pascal target member, next?, known _ linked⟩
  obtain ⟨failure, kind, fails⟩ := @returns_refused limit { registry, strict, texts } value ending names name .page (by simp)
    (ExpansionStack.empty limit) pascal known returning
    (stuck.imp (fun full => by simpa [ExpansionStack.empty] using full.1)
      fun ⟨target, member, same⟩ => ⟨target, same, member⟩)
  exact ⟨failure, compileFresh_of_returns (pascal name List.mem_cons_self) (fails.bind_error _), kind⟩

end Chain

theorem page_eq (name : Text) : handing .page name = "<" ++ name ++ " p=\x7bx\x7d />" := by
  change '<' :: name ++ (" p=\x7bx\x7d /" : Text) ++ ['>'] ++ [] = ['<'] ++ name ++ ((" p=\x7bx\x7d /" : Text) ++ ['>'])
  simp only [List.append_assoc, List.cons_append, List.nil_append, List.append_nil]

end Relay

open Relay in
/-- A prop that is handed on along a chain of components arrives as it is, however the value looks and whatever the
components are called, as long as the chain is no longer than the limit. A longer chain is refused, and so is one that
comes back to one of its components. -/
theorem compileFresh_relay {first : Text} {others : List Text} (distinct : (first :: others).Nodup)
    (pascal : ∀ name ∈ first :: others, isPascalCase name = true) {value : Value} (clean : value.isClean = true)
    (strict : Bool) (texts : ScriptTexts) (limit : Int) :
    (∀ listed : List (Text × Option Text), listed.Perm (links none (first :: others)) → ∃ registry,
      Registry.ofSources (listed.map fun (name, next?) => (name, source value.type next?)) false = .ok registry ∧
        let result := (compileFresh { registry, strict, texts } limit [("x", value)] ("<" ++ first ++ " p=\x7bx\x7d />")).1
        ((first :: others).length ≤ limit → result = .ok (nested value.render (first :: others).length)) ∧
          (limit < (first :: others).length →
            ∃ failure, result = .error failure ∧ failure.kind = .cyclicComponentReference)) ∧
      ∀ target ∈ first :: others, ∀ listed : List (Text × Option Text),
        listed.Perm (links (some target) (first :: others)) → ∃ registry,
          Registry.ofSources (listed.map fun (name, next?) => (name, source value.type next?)) false = .ok registry ∧
            ∃ failure, (compileFresh { registry, strict, texts } limit [("x", value)] ("<" ++ first ++ " p=\x7bx\x7d />")).1 =
              .error failure ∧ failure.kind = .cyclicComponentReference := by
  rw [← page_eq]
  constructor
  · intro listed order
    obtain ⟨registry, loaded, known⟩ := exists_registry value.type distinct pascal (by simp) order
    exact ⟨registry, loaded, fun room => compileFresh_nested strict texts clean pascal known distinct room,
      fun full => compileFresh_refused strict texts pascal known (.inl ⟨full, rfl⟩)⟩
  · intro target member listed order
    obtain ⟨registry, loaded, known⟩ := exists_registry value.type distinct pascal
      (fun other same => Option.some.inj same ▸ pascal target member) order
    exact ⟨registry, loaded, compileFresh_refused strict texts pascal known (.inr ⟨target, member, rfl⟩)⟩

/-- A component that is called like a script hands a text with an angle bracket on to the last one, which is loaded first. -/
theorem compileFresh_relay_script :
    let names : List Text := ["Script", "B"]
    let value : Value := .string "v>"
    (names.Nodup ∧ (∀ name ∈ names, isPascalCase name = true) ∧ value.isClean = true) ∧
      ∃ registry, Registry.ofSources [("B", "<t props='p string'>\x7bp\x7d</t>"),
          ("Script", "<t props='p string'><B p=\x7bp\x7d /></t>")] false = .ok registry ∧
        (compileFresh { registry } 2 [("x", value)] "<Script p=\x7bx\x7d />").1 = .ok "<t><t>v></t></t>" := by
  intro names value
  have distinct : names.Nodup := by decide
  have pascal : ∀ name ∈ names, isPascalCase name = true := by decide
  have clean : value.isClean = true := by decide
  refine ⟨⟨distinct, pascal, clean⟩, ?_⟩
  obtain ⟨registry, loaded, arrives, -⟩ := (compileFresh_relay distinct pascal clean false {} 2).1
    [("B", none), ("Script", some "B")] (.swap ..)
  exact ⟨registry, loaded, arrives (by decide)⟩

end ComponentPages
