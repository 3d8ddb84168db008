import ComponentPages.Proofs.Attribute.Rejoining
import ComponentPages.Proofs.Fetch.Directive
import ComponentPages.Proofs.Script.Closing
import ComponentPages.Proofs.Stylesheet

/-!
Elements that are hidden until the data has come. The tag of such an element is written again, with data attributes in
place of its directives and with a style that hides it in front of its own style. The new style stands between double
quotes, so it is read back as it was written just when the element's own style has no double quote, which it may have
between single quotes.
-/
namespace ComponentPages

namespace Attribute

/-- Bare, or with a value between quotes that is free of its quote. -/
inductive IsPlain : Attribute → Prop
  | bare {name : Text} (named : IsName name) : IsPlain ⟨name, none, name⟩
  | quoted {name left right text : Text} {quote : Char} (named : IsName name) (leftSpace : IsSpace left)
    (rightSpace : IsSpace right) (quotes : isQuote quote = true) (free : ∀ c ∈ text, c ≠ quote) :
    IsPlain ⟨name, some (.quoted quote, text), name ++ left ++ '=' :: right ++ quote :: (text ++ [quote])⟩

/-- Attributes with a space in front of each. -/
def spaced (attributes : List Attribute) : Text := (attributes.map raw).flatMap (' ' :: ·)

theorem spaced_append (first second : List Attribute) : spaced (first ++ second) = spaced first ++ spaced second := by
  rw [spaced, List.map_append, List.flatMap_append, spaced, spaced]

theorem spaced_cons (attr : Attribute) (attributes : List Attribute) :
    spaced (attr :: attributes) = ' ' :: attr.raw ++ spaced attributes := rfl

theorem isPlain_valued {name text : Text} (named : IsName name) (free : '"' ∉ text) : IsPlain (valued name text) := by
  have plain := IsPlain.quoted named (by decide : IsSpace []) (by decide : IsSpace []) (by decide : isQuote '"' = true)
    fun c member (same : c = '"') => free (same ▸ member)
  simpa [valued] using plain

namespace IsPlain

variable {attr : Attribute}

theorem spelled (plain : attr.IsPlain) {rest : Text} (apart : Apart rest) : Spelled attr rest := by
  cases plain with
  | bare named => exact .bare named (head_of_apart apart) apart.2
  | quoted named leftSpace rightSpace quotes free =>
    exact .valued named leftSpace rightSpace (isBlank_of_isQuote quotes) (readValue_quoted quotes free rest)

theorem begins (plain : attr.IsPlain) : ∃ c tail, attr.raw = c :: tail ∧ isNamePart c = true :=
  (plain.spelled apart_nil).begins

end IsPlain

/-- A space and an attribute behind it let what stands in front end. -/
theorem apart_cons {c : Char} (part : isNamePart c = true) (rest : Text) : Apart (' ' :: c :: rest) := by
  obtain ⟨solid, notEqual⟩ := solid_of_isNamePart part
  have trimmed : Text.trimLeft (' ' :: c :: rest) = c :: rest :=
    Text.trimLeft_append_cons (by decide : IsSpace [' ']) solid rest
  exact ⟨rfl, by simpa [trimmed] using notEqual⟩

theorem apart_spaced {attributes : List Attribute} (plain : ∀ attr ∈ attributes, attr.IsPlain) {rest : Text}
    (apart : Apart rest) : Apart (spaced attributes ++ rest) := by
  cases attributes with
  | nil => exact apart
  | cons attr attributes =>
    obtain ⟨c, tail, begins, part⟩ := (plain attr List.mem_cons_self).begins
    rw [spaced_cons, begins]
    exact apart_cons part _

/-- Plain attributes with spaces in front are read one by one. -/
theorem tokenize_spaced {attributes : List Attribute} (plain : ∀ attr ∈ attributes, attr.IsPlain) {rest : Text}
    (apart : Apart rest) : tokenize (spaced attributes ++ rest) = attributes ++ tokenize rest := by
  induction attributes with
  | nil => rfl
  | cons attr attributes ih =>
    obtain ⟨here, others⟩ := List.forall_mem_cons.1 plain
    have first := (here.spelled (apart_spaced others apart)).tokenize_append
    have space := tokenize_append_of_isSpace (by decide : IsSpace [' ']) (attr.raw ++ (spaced attributes ++ rest))
    rw [spaced_cons, List.append_assoc, List.cons_append, ← List.singleton_append, space, first, ih others, List.cons_append]

/-- No quote and no brace is in the name. -/
def IsPlainlyNamed (attr : Attribute) : Prop := ∀ c ∈ attr.name, isQuote c = false ∧ Placeholder.isBrace c = false

/-- A plain attribute with a plain name, as it is printed behind a space. -/
theorem IsPlain.exists_printed {attr : Attribute} (plain : attr.IsPlain) (named : attr.IsPlainlyNamed) :
    ∃ printed : PlainAttribute, printed.isSound = true ∧ printed.print = ' ' :: attr.raw := by
  have parts {name : Text} (isName : IsName name) (free : ∀ c ∈ name, isQuote c = false ∧ Placeholder.isBrace c = false) :
      (name != []) = true ∧ name.all isPlainNamePart = true := by
    refine ⟨bne_iff_ne.2 isName.1, List.all_eq_true.2 fun c member => ?_⟩
    rw [isPlainNamePart, isName.2 c member, (free c member).1, (free c member).2]
    rfl
  cases plain with
  | @bare name isName =>
    obtain ⟨some, letters⟩ := parts isName named
    refine ⟨.bare [' '] name, ?_,
      by simp [PlainAttribute.print, PlainAttribute.gap, PlainAttribute.name, PlainAttribute.ending]⟩
    rw [PlainAttribute.isSound, PlainAttribute.name, some, letters]
    rfl
  | @quoted name left right text quote isName leftSpace rightSpace quotes free =>
    obtain ⟨some, letters⟩ := parts isName named
    refine ⟨.quoted [' '] name left right quote text, ?_,
      by simp [PlainAttribute.print, PlainAttribute.gap, PlainAttribute.name, PlainAttribute.ending]⟩
    have valued : (PlainAttribute.quoted [' '] name left right quote text).isValued = true := by
      rw [PlainAttribute.isValued, List.all_eq_true.2 leftSpace, List.all_eq_true.2 rightSpace, quotes,
        List.all_eq_true.2 fun c member => bne_iff_ne.2 (free c member)]
      rfl
    rw [PlainAttribute.isSound, PlainAttribute.name, some, letters, valued]
    rfl

/-- Plain attributes with plain names hide no `>` but the ones between their quotes. -/
theorem split?_spaced {attributes : List Attribute} (plain : ∀ attr ∈ attributes, attr.IsPlain)
    (named : ∀ attr ∈ attributes, attr.IsPlainlyNamed) (rest : Text) :
    TagHead.split? none 0 (spaced attributes ++ rest) = (TagHead.split? none 0 rest).map (prepend (spaced attributes)) := by
  induction attributes with
  | nil => exact (map_prepend_nil _).symm
  | cons attr attributes ih =>
    obtain ⟨here, others⟩ := List.forall_mem_cons.1 plain
    obtain ⟨hereNamed, othersNamed⟩ := List.forall_mem_cons.1 named
    obtain ⟨printed, sound, spelled⟩ := here.exists_printed hereNamed
    have later := PlainAttribute.split?_print sound (spaced attributes ++ rest)
    rw [spaced_cons, ← spelled, List.append_assoc, later, ih others othersNamed, map_prepend_prepend]

end Attribute

namespace Fetch

/-! ### Directives -/

/-- The name of an item and the path to the items have no quote. -/
theorem quoteless_of_readLoop {written item source : Text} (reads : readLoop written = .ok (item, source)) :
    '"' ∉ item ∧ '"' ∉ source := by
  unfold readLoop at reads
  split at reads
  · next parts found =>
    cases reads
    simp only [loopParts?, bind, Option.bind_eq_some_iff, Prod.exists] at found
    obtain ⟨name, afterItem, named, blanks, word, gap, afterIn, opened, space, path, ran, found⟩ := found
    split at found
    · next paths =>
      cases found
      refine ⟨fun member => absurd (isScriptNamePart_of_scriptName named member) (by decide +kernel), fun member => ?_⟩
      obtain ⟨piece, inPieces, inPiece⟩ := Text.exists_mem_pieces (by decide : '"' ≠ '.') member
      exact absurd (isScriptNamePart_of_isScriptName (List.all_eq_true.1 paths piece inPieces) inPiece) (by decide +kernel)
    · cases found
  · cases reads

/-- The data attributes of a loop. -/
def loopMarks (loop : Loop) : List Attribute :=
  [.valued "data-gtml-for" loop.templateId, .valued "data-gtml-item" loop.item, .valued "data-gtml-source" loop.source]

/-- An attribute that is no directive. -/
def IsKept (attr : Attribute) : Prop :=
  (attr.name = "suspense" ∨ attr.name = "fallback" → attr.value.isSome = true) ∧ (attr.name = "for" → attr.value = none)

/-- What an attribute becomes, and the loop that it starts. -/
inductive Becomes : Attribute → List Attribute → Option Loop → Prop
  | suspense {raw : Text} : Becomes ⟨"suspense", none, raw⟩ [⟨"data-gtml-suspense", none, "data-gtml-suspense"⟩] none
  | fallback {raw : Text} : Becomes ⟨"fallback", none, raw⟩ [⟨"data-gtml-fallback", none, "data-gtml-fallback"⟩] none
  | loop {raw text id item source : Text} {quoting : Quoting} :
    readLoop text = .ok (item, source) →
      Becomes ⟨"for", some (quoting, text), raw⟩ (loopMarks ⟨id, item, source⟩) (some ⟨id, item, source⟩)
  | kept {attr : Attribute} : IsKept attr → Becomes attr [attr] none

/-- What attributes become one by one, and the loops that they start. -/
inductive Lowers : List Attribute → List Attribute → List Loop → Prop
  | done : Lowers [] [] []
  | cons {attr : Attribute} {group : List Attribute} {loop : Option Loop} {attributes written : List Attribute}
    {loops : List Loop} :
    Becomes attr group loop → Lowers attributes written loops →
      Lowers (attr :: attributes) (group ++ written) (loop.toList ++ loops)

/-- Whether an attribute hides its element. -/
def hides (attr : Attribute) : Bool :=
  attr.name == "fallback".toList && attr.value.isNone || attr.name == "for".toList && attr.value.isSome

/-- Whether an attribute is no loop, or a loop that can be read. -/
def isValid (attr : Attribute) : Bool := attr.name != "for".toList || attr.text?.all fun text => (loopParts? text).isSome

/-- A text that spells plain attributes. -/
structure Writes (text : Text) (group : List Attribute) : Prop where
  spelled : ' ' :: text = Attribute.spaced group
  plain : ∀ attr ∈ group, attr.IsPlain

theorem writes_loop {loop : Loop} (id : '"' ∉ loop.templateId) (item : '"' ∉ loop.item) (source : '"' ∉ loop.source) :
    Writes (loopAttributes loop) (loopMarks loop) where
  spelled := by
    have spelled : loopAttributes loop =
        ("data-gtml-for" ++ "=\"") ++ loop.templateId ++ ("\"" ++ ' ' :: ("data-gtml-item" ++ "=\"")) ++ loop.item ++
          ("\"" ++ ' ' :: ("data-gtml-source" ++ "=\"")) ++ loop.source ++ "\"" := rfl
    rw [spelled, loopMarks]
    generalize ("data-gtml-for" : Text) = first, ("data-gtml-item" : Text) = second, ("data-gtml-source" : Text) = third
    simp only [Attribute.spaced, Attribute.valued, List.map_cons, List.map_nil, List.flatMap_cons, List.flatMap_nil,
      List.append_assoc, List.cons_append, List.append_nil]
  plain := by
    simp only [loopMarks, List.forall_mem_cons]
    exact ⟨Attribute.isPlain_valued (by decide) id, Attribute.isPlain_valued (by decide) item,
      Attribute.isPlain_valued (by decide) source, List.forall_mem_nil _⟩

theorem writes_single {attr : Attribute} (plain : attr.IsPlain) : Writes attr.raw [attr] where
  spelled := by simp [Attribute.spaced]
  plain := List.forall_mem_singleton.2 plain

/-- A plain attribute becomes plain attributes. -/
theorem run_directive_plain {attr : Attribute} (plain : attr.IsPlain) (valid : isValid attr = true) (page : Page) :
    ∃ result later group, (directive attr).run page = (.ok result, later) ∧ Becomes attr group result.loop? ∧
      Writes result.written group ∧ result.hides = hides attr := by
  obtain ⟨name, value, raw⟩ := attr
  rw [directive]
  dsimp only
  split
  · next suspends =>
    rw [Bool.and_eq_true, decide_eq_true_eq, Option.isNone_iff_eq_none] at suspends
    obtain ⟨rfl, rfl⟩ := suspends
    exact ⟨_, page, _, rfl, .suspense, writes_single (.bare (by decide)), rfl⟩
  · next awake =>
    split
    · next falls =>
      rw [Bool.and_eq_true, decide_eq_true_eq, Option.isNone_iff_eq_none] at falls
      obtain ⟨rfl, rfl⟩ := falls
      exact ⟨_, page, _, rfl, .fallback, writes_single (.bare (by decide)), rfl⟩
    · next stays =>
      split
      · next written loops spoken =>
        obtain rfl := beq_iff_eq.1 loops
        obtain ⟨⟨quoting, text⟩, rfl, rfl⟩ := Option.map_eq_some_iff.1 spoken
        obtain ⟨⟨item, source⟩, parts⟩ := Option.isSome_iff_exists.1 (by simpa [isValid, Attribute.text?] using valid)
        have reads : readLoop text = .ok (item, source) := by rw [readLoop, parts]
        obtain ⟨itemFree, sourceFree⟩ := quoteless_of_readLoop reads
        have idFree : '"' ∉ (page.ids.next "gtml-for").1 := fun member =>
          absurd (isBare_numbered (by decide) _ _ member).2 (by decide)
        rw [reads]
        exact ⟨_, _, _, rfl, .loop reads, writes_loop idFree itemFree sourceFree, rfl⟩
      · next other =>
        have valued {word : Text} (bare : ¬(decide (name = word) && value.isNone) = true) (named : name = word) :
            value.isSome = true := by
          cases value with
          | none => exact absurd (by rw [decide_eq_true named]; rfl) bare
          | some found => rfl
        have loopless : ¬(name = "for" ∧ value.isSome = true) := by
          rintro ⟨named, some⟩
          obtain ⟨found, rfl⟩ := Option.isSome_iff_exists.1 some
          exact other found.2 (beq_iff_eq.2 named) rfl
        have kept : IsKept ⟨name, value, raw⟩ :=
          ⟨fun named => named.elim (valued awake) (valued stays),
            fun named => Option.not_isSome_iff_eq_none.1 fun some => loopless ⟨named, some⟩⟩
        have fallback : (name == "fallback".toList && value.isNone) = false := by
          rw [beq_eq_decide]
          exact Bool.eq_false_iff.2 stays
        have loop : (name == "for".toList && value.isSome) = false :=
          Bool.eq_false_iff.2 fun both => loopless ((Bool.and_eq_true_iff.1 both).imp_left beq_iff_eq.1)
        refine ⟨_, page, _, rfl, .kept kept, writes_single plain, ?_⟩
        rw [hides, fallback, loop]
        rfl

/-- A text spells plain attributes in one way only. -/
theorem Writes.unique {text : Text} {group other : List Attribute} (writes : Writes text group) (again : Writes text other) :
    group = other := by
  have read := Attribute.tokenize_spaced writes.plain Attribute.apart_nil
  rw [← writes.spelled, again.spelled, Attribute.tokenize_spaced again.plain Attribute.apart_nil, Attribute.tokenize_nil,
    List.append_nil, List.append_nil] at read
  exact read.symm

/-- Only a style becomes a style. -/
theorem Becomes.eq_of_style {attr style : Attribute} {loop : Option Loop} (becomes : Becomes attr [style] loop)
    (named : style.name = "style") : attr = style := by
  cases becomes with
  | suspense => exact absurd named (by decide)
  | fallback => exact absurd named (by decide)
  | kept => rfl

theorem Becomes.loop_eq_none {attr : Attribute} {group : List Attribute} {loop : Option Loop}
    (becomes : Becomes attr group loop) (other : attr.name ≠ "for") : loop = none := by
  cases becomes with
  | loop => exact absurd rfl other
  | _ => rfl

theorem Becomes.of_style {style : Attribute} {group : List Attribute} {loop : Option Loop} (becomes : Becomes style group loop)
    (named : style.name = "style") : group = [style] ∧ loop = none := by
  cases becomes with
  | suspense => exact absurd named (by decide : ("suspense" : Text) ≠ "style")
  | fallback => exact absurd named (by decide : ("fallback" : Text) ≠ "style")
  | loop => exact absurd named (by decide : ("for" : Text) ≠ "style")
  | kept => exact ⟨rfl, rfl⟩

/-- What directives make of plain attributes. -/
structure Collected (attributes : List Attribute) (directives : List Directive) (written : List Attribute)
    (loops : List Loop) : Prop where
  lowers : Lowers attributes written loops
  loops : directives.filterMap Directive.loop? = loops
  spelled : (directives.map Directive.written).flatMap (' ' :: ·) = Attribute.spaced written
  plain : ∀ attr ∈ written, attr.IsPlain
  hides : directives.any Directive.hides = attributes.any hides
  apart : (∀ attr ∈ attributes, attr.name ≠ "style") →
    ∀ style : Attribute, style.IsPlain → style.name = "style" → style.raw ∉ directives.map Directive.written

/-- Plain attributes are lowered one by one. -/
theorem run_directives_plain {attributes : List Attribute} (plain : ∀ attr ∈ attributes, attr.IsPlain)
    (valid : ∀ attr ∈ attributes, isValid attr = true) (page : Page) :
    ∃ directives later written loops, (attributes.mapM directive).run page = (.ok directives, later) ∧
      Collected attributes directives written loops := by
  induction attributes generalizing page with
  | nil => exact ⟨[], page, [], [], rfl, .done, rfl, rfl, List.forall_mem_nil _, rfl, fun _ _ _ _ => List.not_mem_nil⟩
  | cons attr attributes ih =>
    obtain ⟨here, others⟩ := List.forall_mem_cons.1 plain
    obtain ⟨hereValid, othersValid⟩ := List.forall_mem_cons.1 valid
    obtain ⟨first, between, group, firstRan, becomes, writes, hidesToo⟩ := run_directive_plain here hereValid page
    obtain ⟨directives, later, written, loops, ran, lowered⟩ := ih others othersValid between
    refine ⟨first :: directives, later, group ++ written, first.loop?.toList ++ loops, ?_, ?_⟩
    · rw [List.mapM_cons, Compile.run_bind_of_ok firstRan, Compile.run_bind_of_ok ran]
      rfl
    · refine ⟨.cons becomes lowered.lowers, ?_, ?_, List.forall_mem_append.2 ⟨writes.plain, lowered.plain⟩, ?_, ?_⟩
      · rw [← lowered.loops]
        cases starts : first.loop? with
        | none => rw [List.filterMap_cons_none starts]; rfl
        | some loop => rw [List.filterMap_cons_some starts]; rfl
      · rw [List.map_cons, List.flatMap_cons, lowered.spelled, writes.spelled, Attribute.spaced_append]
      · rw [List.any_cons, List.any_cons, hidesToo, lowered.hides]
      · intro unstyled style stylePlain named member
        obtain ⟨hereUnstyled, othersUnstyled⟩ := List.forall_mem_cons.1 unstyled
        rcases List.mem_cons.1 member with same | later
        · obtain rfl := Writes.unique writes (same ▸ writes_single stylePlain)
          exact hereUnstyled (by rw [becomes.eq_of_style named, named])
        · exact lowered.apart othersUnstyled style stylePlain named later

/-- The first of equal texts is replaced. -/
theorem replaceFirst_append {old : Text} {front : List Text} (absent : old ∉ front) (new : Text) (rest : List Text) :
    replaceFirst old new (front ++ old :: rest) = front ++ new :: rest := by
  induction front with
  | nil => rw [List.nil_append, replaceFirst, if_pos rfl, List.nil_append]
  | cons text front ih =>
    rw [List.cons_append, replaceFirst, if_neg (Ne.symm (List.ne_of_not_mem_cons absent)),
      ih (List.not_mem_of_not_mem_cons absent), List.cons_append]

/-! ### Styles -/

/-- A tag head with plain attributes, one of which hides the element; the first style has a value. -/
structure IsStyled (head : Text) (before : List Attribute) (style : Attribute) (css : Text) (behind : List Attribute) :
    Prop where
  tokens : Attribute.tokenize head = before ++ style :: behind
  plain : ∀ attr ∈ Attribute.tokenize head, attr.IsPlain
  valid : ∀ attr ∈ Attribute.tokenize head, isValid attr = true
  hides : (Attribute.tokenize head).any hides = true
  first : ∀ attr ∈ before, attr.name ≠ "style"
  named : style.name = "style"
  value : style.text? = some css

/-- The style that hides an element and then styles it. -/
def hidingStyle (css : Text) : Attribute := .valued "style" ("display:none;" ++ css)

/-- The head of a tag that is written again from the texts of its attributes. -/
def rewritten (head : Text) (written : List Text) : Text :=
  ' ' :: List.intercalate [' '] written ++ if TagHead.closesItself head then (" /" : Text) else ""

theorem cons_intercalate {parts : List Text} (some : parts ≠ []) :
    ' ' :: List.intercalate [' '] parts = parts.flatMap (' ' :: ·) := by
  induction parts with
  | nil => exact absurd rfl some
  | cons part parts ih =>
    cases parts with
    | nil => simp
    | cons next parts =>
      rw [List.intercalate_cons_cons, List.flatMap_cons, ← ih (List.cons_ne_nil next parts)]
      simp

/-- The attributes of a styled tag are written again, with the new style in the place of its own. -/
theorem run_directiveAttributes_styled {head css : Text} {before behind : List Attribute} {style : Attribute}
    (styled : IsStyled head before style css behind) (page : Page) :
    ∃ written later front back frontLoops backLoops,
      (directiveAttributes (Attribute.tokenize head)).run page = (.ok (written, frontLoops ++ backLoops), later) ∧
      (Lowers before front frontLoops ∧ ∀ attr ∈ front, attr.IsPlain) ∧
      (Lowers behind back backLoops ∧ ∀ attr ∈ back, attr.IsPlain) ∧
      ' ' :: List.intercalate [' '] written =
        Attribute.spaced front ++ ' ' :: ((hidingStyle css).raw ++ Attribute.spaced back) := by
  obtain ⟨tokens, plain, valid, hidden, first, named, value⟩ := styled
  rw [tokens] at plain valid hidden ⊢
  obtain ⟨frontPlain, plain⟩ := List.forall_mem_append.1 plain
  obtain ⟨stylePlain, backPlain⟩ := List.forall_mem_cons.1 plain
  obtain ⟨frontValid, valid⟩ := List.forall_mem_append.1 valid
  obtain ⟨styleValid, backValid⟩ := List.forall_mem_cons.1 valid
  obtain ⟨fronts, between, front, frontLoops, frontRan, frontCollected⟩ := run_directives_plain frontPlain frontValid page
  obtain ⟨own, reached, group, ownRan, becomes, writes, ownHides⟩ := run_directive_plain stylePlain styleValid between
  obtain ⟨backs, later, back, backLoops, backRan, backCollected⟩ := run_directives_plain backPlain backValid reached
  obtain ⟨rfl, loopless⟩ := becomes.of_style named
  have kept : own.written = style.raw := by
    have spelled := writes.spelled
    rw [Attribute.spaced_cons, List.cons_append] at spelled
    simpa [Attribute.spaced] using (List.cons.inj spelled).2
  have ran : ((before ++ style :: behind).mapM directive).run page = (.ok (fronts ++ own :: backs), later) := by
    have others : ((style :: behind).mapM directive).run between = (.ok (own :: backs), later) := by
      rw [List.mapM_cons, Compile.run_bind_of_ok ownRan, Compile.run_bind_of_ok backRan]
      rfl
    rw [List.mapM_append, Compile.run_bind_of_ok frontRan, Compile.run_bind_of_ok others]
    rfl
  have loops : (fronts ++ own :: backs).filterMap Directive.loop? = frontLoops ++ backLoops := by
    rw [List.filterMap_append, List.filterMap_cons_none loopless, frontCollected.loops, backCollected.loops]
  have hidesAny : (fronts ++ own :: backs).any Directive.hides = true := by
    rw [List.any_append, List.any_cons] at hidden ⊢
    rw [frontCollected.hides, ownHides, backCollected.hides]
    exact hidden
  have restyled : hide (before ++ style :: behind) ((fronts ++ own :: backs).map Directive.written) =
      fronts.map Directive.written ++ ("style=\"display:none;" ++ css ++ "\"") :: backs.map Directive.written := by
    have found : Attribute.find? "style" (before ++ style :: behind) = some style := by
      refine List.find?_eq_some_iff_append.2 ⟨decide_eq_true named, before, behind, rfl, fun attr member => ?_⟩
      rw [decide_eq_false (first attr member)]
      rfl
    rw [hide, found, Option.bind_some, value, List.map_append, List.map_cons, kept]
    exact replaceFirst_append (frontCollected.apart first style stylePlain named) _ _
  refine ⟨fronts.map Directive.written ++ ("style=\"display:none;" ++ css ++ "\"") :: backs.map Directive.written, later,
    front, back, frontLoops, backLoops, ?_, ⟨frontCollected.lowers, frontCollected.plain⟩,
    ⟨backCollected.lowers, backCollected.plain⟩, ?_⟩
  · rw [directiveAttributes, Compile.run_bind_of_ok ran]
    dsimp only
    rw [if_pos hidesAny, restyled, loops]
    rfl
  · have written : "style=\"display:none;" ++ css ++ "\"" = (hidingStyle css).raw := by
      rw [hidingStyle, Attribute.valued, ← List.append_assoc]
      rfl
    rw [cons_intercalate (List.append_ne_nil_of_right_ne_nil _ (List.cons_ne_nil _ _)), List.flatMap_append, List.flatMap_cons,
      frontCollected.spelled, backCollected.spelled, written, List.cons_append]

/-- The attributes of a styled tag are read again as they were written just when the style has no double quote. -/
theorem tokenize_styled_iff {front back : List Attribute} (frontPlain : ∀ attr ∈ front, attr.IsPlain)
    (backPlain : ∀ attr ∈ back, attr.IsPlain) {css tail : Text} (apart : Attribute.Apart tail)
    (ends : Attribute.tokenize tail = []) :
    Attribute.tokenize (Attribute.spaced front ++ ' ' :: ((hidingStyle css).raw ++ Attribute.spaced back) ++ tail) =
        front ++ hidingStyle css :: back ↔
      '"' ∉ css := by
  have begins : ∃ rest, (hidingStyle css).raw = 's' :: rest := ⟨_, rfl⟩
  have named : Attribute.IsName "style" := by decide
  have read : Attribute.tokenize (Attribute.spaced front ++ ' ' :: ((hidingStyle css).raw ++ Attribute.spaced back) ++ tail) =
      front ++ Attribute.tokenize ((hidingStyle css).raw ++ (Attribute.spaced back ++ tail)) := by
    obtain ⟨rest, begins⟩ := begins
    have space := Attribute.tokenize_append_of_isSpace (by decide : IsSpace [' '])
      ((hidingStyle css).raw ++ (Attribute.spaced back ++ tail))
    rw [List.append_assoc, List.cons_append, List.append_assoc, Attribute.tokenize_spaced frontPlain, ← space]
    · rfl
    · rw [begins]
      exact Attribute.apart_cons (by decide) _
  rw [read, List.append_cancel_left_eq]
  constructor
  · intro same member
    obtain ⟨inside, more, whole, free⟩ := List.eq_append_cons_of_mem member
    -- The value ends at the first double quote of the style.
    have cut : (hidingStyle css).raw = (hidingStyle inside).raw ++ (more ++ "\"") := by
      rw [hidingStyle, hidingStyle, Attribute.valued, Attribute.valued, whole]
      simp
    have quoteless : '"' ∉ ("display:none;" : Text) ++ inside := List.not_mem_append (by decide) free
    have first := (Attribute.spelled_valued named quoteless (more ++ "\"" ++ (Attribute.spaced back ++ tail))).tokenize_append
    rw [cut, List.append_assoc, hidingStyle] at same
    rw [first] at same
    have values := congrArg Attribute.value (List.cons.inj same).1
    have equal : inside = css := List.append_cancel_left (Prod.mk.inj (Option.some.inj values)).2
    exact free (equal ▸ member)
  · intro free
    have quoteless : '"' ∉ ("display:none;" : Text) ++ css := List.not_mem_append (by decide) free
    rw [hidingStyle, (Attribute.spelled_valued named quoteless _).tokenize_append,
      Attribute.tokenize_spaced backPlain apart, ends, List.append_nil]

/-- What becomes of plainly named attributes is plainly named. -/
theorem Lowers.plainlyNamed {attributes written : List Attribute} {loops : List Loop}
    (lowers : Lowers attributes written loops) (named : ∀ attr ∈ attributes, attr.IsPlainlyNamed) :
    ∀ attr ∈ written, attr.IsPlainlyNamed := by
  induction lowers with
  | done => exact List.forall_mem_nil _
  | cons becomes _ ih =>
    obtain ⟨here, others⟩ := List.forall_mem_cons.1 named
    refine List.forall_mem_append.2 ⟨?_, ih others⟩
    have marks : ∀ name ∈ (["data-gtml-suspense", "data-gtml-fallback", "data-gtml-for", "data-gtml-item",
        "data-gtml-source"] : List Text), ∀ c ∈ name, isQuote c = false ∧ Placeholder.isBrace c = false := by decide
    cases becomes with
    | suspense => exact List.forall_mem_singleton.2 (marks _ (by decide))
    | fallback => exact List.forall_mem_singleton.2 (marks _ (by decide))
    | loop =>
      simp only [loopMarks, List.forall_mem_cons]
      exact ⟨marks "data-gtml-for" (by decide), marks "data-gtml-item" (by decide), marks "data-gtml-source" (by decide),
        List.forall_mem_nil _⟩
    | kept => exact List.forall_mem_singleton.2 here

/-- Without a double quote in the style, the tag ends where it was written to end. -/
theorem read?_styled {front back : List Attribute} (frontPlain : ∀ attr ∈ front, attr.IsPlain)
    (backPlain : ∀ attr ∈ back, attr.IsPlain) (frontNamed : ∀ attr ∈ front, attr.IsPlainlyNamed)
    (backNamed : ∀ attr ∈ back, attr.IsPlainlyNamed) {css tail : Text} (free : '"' ∉ css)
    (flat : ∀ c ∈ tail, c ≠ '>' ∧ isQuote c = false ∧ Placeholder.isBrace c = false) (rest : Text) :
    TagHead.read? (Attribute.spaced front ++ ' ' :: ((hidingStyle css).raw ++ Attribute.spaced back) ++ tail ++ '>' :: rest) =
      some (Attribute.spaced front ++ ' ' :: ((hidingStyle css).raw ++ Attribute.spaced back) ++ tail, rest) := by
  have whole : Attribute.spaced front ++ ' ' :: ((hidingStyle css).raw ++ Attribute.spaced back) =
      Attribute.spaced (front ++ hidingStyle css :: back) := by
    rw [Attribute.spaced_append, Attribute.spaced_cons, List.cons_append]
  have stylePlain : (hidingStyle css).IsPlain :=
    Attribute.isPlain_valued (by decide) (List.not_mem_append (by decide) free)
  have styleNamed : (hidingStyle css).IsPlainlyNamed := by
    have named : ∀ c ∈ ("style" : Text), isQuote c = false ∧ Placeholder.isBrace c = false := by decide
    exact named
  have passed := Attribute.split?_spaced
    (List.forall_mem_append.2 ⟨frontPlain, List.forall_mem_cons.2 ⟨stylePlain, backPlain⟩⟩)
    (List.forall_mem_append.2 ⟨frontNamed, List.forall_mem_cons.2 ⟨styleNamed, backNamed⟩⟩) (tail ++ '>' :: rest)
  have ended : TagHead.split? none 0 ('>' :: rest) = some ([], rest) := by rw [TagHead.split?]; rfl
  rw [whole, TagHead.read?, List.append_assoc, passed, TagHead.split?_append flat, ended]
  simp [prepend]

/-! ### Tags of a body -/

/-- Where the text begins that is still to be copied when the given tags are done; a tag that does not end stops the
search. -/
def passed (position : Nat) : List Mark → Option Nat
  | [] => some position
  | mark :: rest =>
    if mark.offset < position then passed position rest
    else
      match TagHead.read? mark.after with
      | none => none
      | some (head, _) =>
        if (Attribute.tokenize head).any fun attr => isDirectiveName attr.name then
          passed (mark.offset + mark.name.length + head.length + 2) rest
        else passed position rest

theorem le_of_passed {marks : List Mark} {position stop : Nat} (reached : passed position marks = some stop) :
    position ≤ stop := by
  induction marks generalizing position with
  | nil => exact Nat.le_of_eq (Option.some.inj reached)
  | cons mark marks ih =>
    rw [passed] at reached
    split at reached
    · exact ih reached
    · split at reached
      · cases reached
      · split at reached
        · exact Nat.le_trans (by omega) (ih reached)
        · exact ih reached

/-- The tags of a body are written again one after the other, and what stands between them is copied. -/
theorem directivesFrom_append {body : Text} {early : List Mark} {position stop : Nat}
    (reached : passed position early = some stop) (late : List Mark) :
    directivesFrom body position (early ++ late) = (do
      let (before, loops) ← directivesFrom (body.take stop) position early
      let (behind, more) ← directivesFrom body stop late
      pure (before ++ behind, loops ++ more)) := by
  induction early generalizing position with
  | nil =>
    obtain rfl := Option.some.inj reached
    have nothing : (body.take position).drop position = [] := List.drop_eq_nil_of_le (List.length_take_le _ _)
    rw [List.nil_append, directivesFrom, nothing, pure_bind]
    exact (bind_pure _).symm
  | cons mark early ih =>
    rw [List.cons_append, directivesFrom, directivesFrom]
    rw [passed] at reached
    split at reached
    · next inside =>
      rw [if_pos inside, if_pos inside]
      exact ih reached
    · next outside =>
      rw [if_neg outside, if_neg outside]
      cases read : TagHead.read? mark.after with
      | none =>
        rw [read] at reached
        cases reached
      | some found =>
        rw [read] at reached
        dsimp only at reached ⊢
        rw [bind_assoc]
        refine bind_congr fun _ => ?_
        split at reached
        · next directed =>
          have copied : Text.slice (body.take stop) position mark.offset = Text.slice body position mark.offset := by
            have behind := le_of_passed reached
            rw [Text.slice, Text.slice, List.take_take, Nat.min_eq_left (by omega)]
          rw [if_pos directed, if_pos directed, copied, ih reached]
          simp only [bind_assoc, pure_bind, List.append_assoc]
        · next undirected =>
          rw [if_neg undirected, if_neg undirected]
          exact ih reached

/-- An attribute that hides its element is a directive. -/
theorem isDirectiveName_of_hides {attr : Attribute} (hidden : hides attr = true) : isDirectiveName attr.name = true := by
  rw [hides, Bool.or_eq_true, Bool.and_eq_true, Bool.and_eq_true] at hidden
  rw [isDirectiveName, Bool.or_eq_true, Bool.or_eq_true]
  exact hidden.imp (fun falls => .inr falls.1) And.left

/-- A tag in the body of a fetch element that has a style and a directive that hides it is written again, behind what
stands in front of it and in front of what stands behind it. Its attributes come out one by one and in order, the directives
as data attributes and the style with what hides the element in front. They are read again as they were written just when
the style has no double quote, and then the tag ends where it was written to end. -/
theorem directivesFrom_styled {body head rest css : Text} {early late : List Mark} {mark : Mark} {start : Nat}
    {before behind : List Attribute} {style : Attribute} (marks : tagMarks body = early ++ mark :: late)
    (reached : passed 0 early = some start) (apart : start ≤ mark.offset) (read : TagHead.read? mark.after = some (head, rest))
    (styled : IsStyled head before style css behind) :
    (directivesFrom body 0 (tagMarks body) = do
      let (copied, first) ← directivesFrom (body.take start) 0 early
      Compile.note (Note.ofHead head)
      let (written, second) ← directiveAttributes (Attribute.tokenize head)
      let (others, third) ← directivesFrom body (mark.offset + mark.name.length + head.length + 2) late
      pure (copied ++ (Text.slice body start mark.offset ++ ("<" ++ mark.name ++ rewritten head written ++ ">") ++ others),
        first ++ (second ++ third))) ∧
    ∀ page, ∃ written later front back frontLoops backLoops,
      (directiveAttributes (Attribute.tokenize head)).run page = (.ok (written, frontLoops ++ backLoops), later) ∧
      Lowers before front frontLoops ∧ Lowers behind back backLoops ∧
      (Attribute.tokenize (rewritten head written) = front ++ hidingStyle css :: back ↔ '"' ∉ css) ∧
      ((∀ attr ∈ Attribute.tokenize head, attr.IsPlainlyNamed) → '"' ∉ css → ∀ more,
        TagHead.read? (rewritten head written ++ '>' :: more) = some (rewritten head written, more)) := by
  constructor
  · have directed : ((Attribute.tokenize head).any fun attr => isDirectiveName attr.name) = true := by
      obtain ⟨attr, member, hidden⟩ := List.any_eq_true.1 styled.hides
      exact List.any_eq_true.2 ⟨attr, member, isDirectiveName_of_hides hidden⟩
    rw [marks, directivesFrom_append reached, directivesFrom, if_neg (Nat.not_lt.2 apart)]
    simp only [read, if_pos directed, bind_assoc, pure_bind]
    have space : (" " : Text) = [' '] := rfl
    simp only [rewritten, space, List.append_assoc, List.cons_append, List.nil_append]
  · intro page
    obtain ⟨written, later, front, back, frontLoops, backLoops, ran, ⟨frontLowers, frontPlain⟩, ⟨backLowers, backPlain⟩,
      text⟩ := run_directiveAttributes_styled styled page
    obtain ⟨tail, whole, apart, ends, flat⟩ : ∃ tail, rewritten head written =
        Attribute.spaced front ++ ' ' :: ((hidingStyle css).raw ++ Attribute.spaced back) ++ tail ∧ Attribute.Apart tail ∧
          Attribute.tokenize tail = [] ∧ ∀ c ∈ tail, c ≠ '>' ∧ isQuote c = false ∧ Placeholder.isBrace c = false := by
      refine ⟨if TagHead.closesItself head then (" /" : Text) else "", by rw [rewritten, text], ?_⟩
      split
      · exact ⟨⟨rfl, by decide⟩, by cbv, by decide⟩
      · exact ⟨⟨rfl, by decide⟩, by cbv, by decide⟩
    refine ⟨written, later, front, back, frontLoops, backLoops, ran, frontLowers, backLowers, ?_, fun named free more => ?_⟩
    · rw [whole]
      exact tokenize_styled_iff frontPlain backPlain apart ends
    · rw [styled.tokens] at named
      obtain ⟨frontNamed, named⟩ := List.forall_mem_append.1 named
      rw [whole]
      exact read?_styled frontPlain backPlain (frontLowers.plainlyNamed frontNamed)
        (backLowers.plainlyNamed (List.forall_mem_cons.1 named).2) free flat more

set_option maxRecDepth 4000 in
/-- A name of a font between double quotes. -/
theorem directivesFrom_styled_font :
    ∃ written later front back, (directiveAttributes (Attribute.tokenize " fallback style='font: \"A\"'")).run {} =
        (.ok (written, []), later) ∧
      Lowers [⟨"fallback", none, "fallback"⟩] front [] ∧ Lowers [] back [] ∧
      Attribute.tokenize (rewritten " fallback style='font: \"A\"'" written) ≠ front ++ hidingStyle "font: \"A\"" :: back := by
  have tokens : Attribute.tokenize " fallback style='font: \"A\"'" =
      [⟨"fallback", none, "fallback"⟩] ++ ⟨"style", some (.quoted '\'', "font: \"A\""), "style='font: \"A\"'"⟩ :: [] := by
    decide +kernel
  have stylePlain : Attribute.IsPlain ⟨"style", some (.quoted '\'', "font: \"A\""), "style='font: \"A\"'"⟩ :=
    @Attribute.IsPlain.quoted "style" [] [] "font: \"A\"" '\'' (by decide) (by decide) (by decide) (by decide) (by decide)
  have styled : IsStyled " fallback style='font: \"A\"'" [⟨"fallback", none, "fallback"⟩]
      ⟨"style", some (.quoted '\'', "font: \"A\""), "style='font: \"A\"'"⟩ "font: \"A\"" [] := by
    refine ⟨tokens, ?_, ?_, ?_, by decide, rfl, rfl⟩
    · rw [tokens]
      exact List.forall_mem_cons.2 ⟨.bare (by decide), List.forall_mem_singleton.2 stylePlain⟩
    · rw [tokens]
      decide
    · rw [tokens]
      decide
  have marks : tagMarks "<p fallback style='font: \"A\"'>oops</p>" =
      [] ++ ⟨0, "p", " fallback style='font: \"A\"'>oops</p>"⟩ :: [] := by cbv
  have read : TagHead.read? " fallback style='font: \"A\"'>oops</p>" =
      some ((" fallback style='font: \"A\"'" : Text), ("oops</p>" : Text)) := by
    decide +kernel
  obtain ⟨-, rewrites⟩ := directivesFrom_styled marks rfl (Nat.le_refl 0) read styled
  obtain ⟨written, later, front, back, frontLoops, backLoops, ran, frontLowers, backLowers, reread, -⟩ := rewrites {}
  cases backLowers
  cases frontLowers with
  | cons becomes none =>
    cases none
    obtain rfl := becomes.loop_eq_none (by decide)
    have quoted : '"' ∈ ("font: \"A\"" : Text) := by decide
    exact ⟨written, later, _, _, ran, .cons becomes .done, .done, fun same => reread.1 same quoted⟩

end Fetch

end ComponentPages
