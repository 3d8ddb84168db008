import ComponentPages.Proofs.Fetch.Body
import ComponentPages.Proofs.Script.Closing

/-!
Markup as a sequence of words, tags and generated scripts. The tags of such a text are found one by one, each with its
head; what stands in a generated script is covered and holds none.
-/
namespace ComponentPages

/-- An attribute whose name and value can be read and written again anywhere in a head. -/
def PlainAttribute.isSimple (attr : PlainAttribute) : Bool :=
  attr.isSound && attr.name.all (· != '<') && (attr.text?.getD []).all fun c => !isAngle c && !isQuote c

namespace Fetch

/-- The head of a tag: its attributes, and the white space and slashes behind them. -/
structure PlainHead where
  attributes : List PlainAttribute
  tail : Text := []
deriving DecidableEq

namespace PlainHead

def print (head : PlainHead) : Text := head.attributes.flatMap PlainAttribute.print ++ head.tail

/-- The attributes as they are scanned. -/
def scanned (head : PlainHead) : List Attribute := head.attributes.map PlainAttribute.scanned

def isSound (head : PlainHead) : Bool := head.attributes.all PlainAttribute.isSimple && head.tail.all isGapPart

/-- The first attribute of a name, if it has a value. -/
def value? (head : PlainHead) (name : Text) : Option Text :=
  (head.attributes.find? fun attr => attr.name = name).bind PlainAttribute.text?

end PlainHead

/-- The name of an element, unless it begins like that of a script or a style. -/
def isPlainName (name : Text) : Bool :=
  isElementName name && (Text.afterFolded? "script" name).isNone && (Text.afterFolded? "style" name).isNone

/-- A part of a text with tags in it. -/
inductive Token where
  | words (text : Text)
  | opening (name : Text) (head : PlainHead)
  | closing (name : Text) (gap : Text := [])
  | script (element : FetchElement)
deriving DecidableEq

namespace Token

def print : Token → Text
  | words text => text
  | opening name head => openTag name head.print
  | closing name gap => Tag.closeTag name gap
  | script element => ScriptTexts.fetchScript {} element

def isSound : Token → Bool
  | words text => !text.elem '<'
  | opening name head => isPlainName name && head.isSound
  | closing name gap => isPlainName name && gap.all isBlank
  | script element => element.method.all Char.isAlpha && isScriptName element.binding

def isScript : Token → Bool
  | script _ => true
  | words _ | opening _ _ | closing _ _ => false

def head? : Token → Option PlainHead
  | opening _ head => some head
  | words _ | closing _ _ | script _ => none

/-- The place of a tag that opens an element, in front of the given text. -/
def mark? (offset : Nat) (rest : Text) : Token → Option Mark
  | opening name head => some ⟨offset, name, head.print ++ '>' :: rest⟩
  | words _ | closing _ _ | script _ => none

end Token

def printTokens (tokens : List Token) : Text := tokens.flatMap Token.print

@[simp] theorem printTokens_nil : printTokens [] = [] := rfl

@[simp] theorem printTokens_cons (token : Token) (tokens : List Token) :
    printTokens (token :: tokens) = token.print ++ printTokens tokens :=
  List.flatMap_cons

@[simp] theorem printTokens_append (first second : List Token) :
    printTokens (first ++ second) = printTokens first ++ printTokens second :=
  List.flatMap_append

/-- What stands between two places of a text. -/
theorem slice_printTokens (before inside behind : List Token) :
    Text.slice (printTokens (before ++ (inside ++ behind))) (printTokens before).length
      (printTokens (before ++ inside)).length = printTokens inside := by
  rw [← List.append_assoc, printTokens_append (before ++ inside), Text.slice, List.take_left, printTokens_append,
    List.drop_left]

/-- The tags that open elements, each where it stands. -/
def marksOf (offset : Nat) : List Token → List Mark
  | [] => []
  | token :: tokens => (token.mark? offset (printTokens tokens)).toList ++ marksOf (offset + token.print.length) tokens

/-- The stretches of the scripts. -/
def scriptSpans (offset : Nat) : List Token → List Span
  | [] => []
  | token :: tokens =>
    let stop := offset + token.print.length
    (if token.isScript then [⟨offset, stop⟩] else []) ++ scriptSpans stop tokens

/-! ### Heads -/

namespace PlainHead

variable {head : PlainHead}

theorem isSound_of_mem (sound : head.isSound = true) : ∀ attr ∈ head.attributes, attr.isSound = true := by
  simp only [isSound, PlainAttribute.isSimple, Bool.and_eq_true, List.all_eq_true] at sound
  exact fun attr member => (sound.1 attr member).1.1

theorem isGapPart_of_mem_tail (sound : head.isSound = true) : ∀ c ∈ head.tail, isGapPart c = true := by
  simp only [isSound, Bool.and_eq_true, List.all_eq_true] at sound
  exact sound.2

theorem tokenize_print (sound : head.isSound = true) :
    Attribute.tokenize head.print = head.scanned :=
  Attribute.tokenize_print (isSound_of_mem sound) (isGapPart_of_mem_tail sound)

theorem value?_eq (head : PlainHead) (name : Text) :
    head.value? name = (Attribute.find? name head.scanned).bind Attribute.text? := by
  rw [Attribute.find?, scanned, List.find?_map, Option.bind_map]
  change _ = (head.attributes.find? fun attr => attr.name = name).bind _
  rw [value?]
  congr 1
  funext attr
  cases attr <;> rfl

theorem request?_print (sound : head.isSound = true) : request? head.print = head.value? "fetch" := by
  rw [request?, tokenize_print sound, value?_eq]

/-- An attribute holds no angle bracket. -/
theorem isAngle_of_mem_print {attr : PlainAttribute} (simple : attr.isSimple = true) {c : Char} (member : c ∈ attr.print) :
    c ≠ '<' := by
  simp only [PlainAttribute.isSimple, PlainAttribute.isSound, Bool.and_eq_true, List.all_eq_true, bne_iff_ne] at simple
  obtain ⟨⟨⟨⟨⟨⟨-, apart⟩, -⟩, -⟩, valued⟩, named⟩, plain⟩ := simple
  have blank {space : Text} (spaces : ∀ d ∈ space, isBlank d = true) (inside : c ∈ space) : c ≠ '<' := by
    rintro rfl
    exact absurd (spaces '<' inside) (by decide)
  rw [PlainAttribute.print, List.mem_append, List.mem_append] at member
  rcases member with (inGap | inName) | inEnding
  · rintro rfl
    exact absurd (apart '<' inGap) (by decide)
  · exact named c inName
  · cases attr with
    | bare gap name => cases inEnding
    | quoted gap name left right quote text =>
      simp only [PlainAttribute.isValued, Bool.and_eq_true, List.all_eq_true, bne_iff_ne] at valued
      obtain ⟨⟨⟨leftSpace, rightSpace⟩, quotes⟩, -⟩ := valued
      have quoteFree : quote ≠ '<' := by
        rintro rfl
        exact absurd quotes (by decide)
      simp only [PlainAttribute.ending, List.mem_append, List.mem_cons, List.not_mem_nil, or_false] at inEnding
      rcases inEnding with ((inLeft | rfl | inRight) | rfl | inText) | rfl
      · exact blank leftSpace inLeft
      · decide
      · exact blank rightSpace inRight
      · exact quoteFree
      · have angle := (plain c inText).1
        rintro rfl
        exact absurd angle (by decide)
      · exact quoteFree

theorem nameEnds_of_isGapPart {c : Char} (part : isGapPart c = true) : Tag.nameEnds [c] = true := by
  simp only [isGapPart, Bool.or_eq_true, beq_iff_eq] at part
  rcases part with blank | rfl
  · simp [Tag.nameEnds, blank]
  · decide

/-- Printed attributes without an angle bracket make the head of a tag. -/
theorem isTagHead_of_free (attributes : ∀ attr ∈ head.attributes, attr.isSound = true)
    (gap : ∀ c ∈ head.tail, isGapPart c = true) (free : ∀ c ∈ head.print, c ≠ '<') : IsTagHead head.print := by
  refine ⟨TagHead.read?_print attributes gap, ?_, free⟩
  clear free
  obtain ⟨listed, tail⟩ := head
  cases listed with
  | nil =>
    cases tail with
    | nil => decide
    | cons c tail => exact nameEnds_of_isGapPart (gap c List.mem_cons_self)
  | cons attr listed =>
    have attrSound := attributes attr List.mem_cons_self
    simp only [PlainAttribute.isSound, Bool.and_eq_true, List.all_eq_true, bne_iff_ne] at attrSound
    obtain ⟨⟨⟨⟨nonempty, parts⟩, -⟩, -⟩, -⟩ := attrSound
    obtain ⟨c, rest, begins⟩ := List.exists_cons_of_ne_nil nonempty
    rw [print, List.flatMap_cons, PlainAttribute.print, begins]
    exact nameEnds_of_isGapPart (parts c (by rw [begins]; exact List.mem_cons_self))

theorem isTagHead_print (sound : head.isSound = true) : IsTagHead head.print := by
  refine isTagHead_of_free (isSound_of_mem sound) (isGapPart_of_mem_tail sound) fun c member => ?_
  rcases List.mem_append.1 member with inAttributes | inTail
  · obtain ⟨attr, listed, inside⟩ := List.mem_flatMap.1 inAttributes
    simp only [isSound, Bool.and_eq_true, List.all_eq_true] at sound
    exact isAngle_of_mem_print (sound.1 attr listed) inside
  · rintro rfl
    exact absurd (isGapPart_of_mem_tail sound '<' inTail) (by decide)

end PlainHead

/-! ### Scripts -/

theorem matchesLetter_of_nameEnds {letter c : Char} (listed : letter ∈ blockLetters) (ends : Tag.nameEnds [c] = true) :
    matchesLetter letter c = false := by
  have blank : ∀ code ∈ blankCodes, ∀ letter ∈ blockLetters, matchesLetter letter (Char.ofNat code) = false := by
    decide +kernel
  have mark : ∀ letter ∈ blockLetters, matchesLetter letter '/' = false ∧ matchesLetter letter '>' = false := by decide
  simp only [Tag.nameEnds, List.head?_cons, Option.any_some, Bool.or_eq_true, beq_iff_eq] at ends
  rcases ends with (space | rfl) | rfl
  · rw [← Char.ofNat_toNat c]
    exact blank c.toNat (mem_blankCodes space) letter listed
  · exact (mark letter listed).1
  · exact (mark letter listed).2

/-- A word that a name does not begin with is not read across the end of the name. -/
theorem afterFolded?_name {word name : Text} (letters : ∀ letter ∈ word, letter ∈ blockLetters)
    (unread : Text.afterFolded? word name = none) {rest : Text} (ends : Tag.nameEnds rest = true) :
    Text.afterFolded? word (name ++ rest) = none := by
  cases rest with
  | nil => cases ends
  | cons c rest =>
    rw [Text.afterFolded?_append_border fun letter member => matchesLetter_of_nameEnds (letters letter member) ends, unread]
    rfl

namespace Token

variable {token : Token}

theorem isName_of_isPlainName {name : Text} (plain : isPlainName name = true) : Tag.IsName name := by
  simp only [isPlainName, Bool.and_eq_true] at plain
  refine ⟨?_, isElementName_parts plain.1.1⟩
  rintro rfl
  exact absurd plain.1.1 (by decide)

theorem ne_of_mem_words {text : Text} (sound : (words text).isSound = true) : ∀ c ∈ text, c ≠ '<' := by
  rintro c member rfl
  rw [isSound, List.elem_eq_true_of_mem member] at sound
  cases sound

/-- No script or style begins in words or tags. -/
theorem passes_guarded (sound : token.isSound = true) (plain : token.isScript = false) (rest : Text) :
    Pattern.Passes Block.guarded token.print rest := by
  have free {text : Text} (angleless : ∀ c ∈ text, c ≠ '<') (more : Text) : Pattern.Passes Block.guarded text more :=
    Pattern.passes_of_begins more fun c member text => Block.guarded_of_front (Block.front_of_ne c text (angleless c member))
  cases token with
  | words text => exact free (ne_of_mem_words sound) rest
  | opening name head =>
    simp only [isSound, Bool.and_eq_true] at sound
    have isName := isName_of_isPlainName sound.1
    have isHead := PlainHead.isTagHead_print sound.2
    have ends := isHead.nameEnds_append rest
    have plain := sound.1
    simp only [isPlainName, Bool.and_eq_true, Option.isNone_iff_eq_none] at plain
    have front : Block.guarded (openTag name head.print ++ rest) = none := by
      rw [openTag_append]
      refine Block.guarded_of_front (Block.front_eq_none_iff.2 ⟨?_, ?_⟩)
      · exact afterFolded?_name (by decide) plain.1.2 ends
      · exact afterFolded?_name (by decide) plain.2 ends
    exact Pattern.passes_cons_iff.2 ⟨front, free (free_tag isName.isSlug.free isHead) rest⟩
  | closing name gap =>
    simp only [isSound, Bool.and_eq_true, List.all_eq_true] at sound
    have front : Block.guarded ('<' :: '/' :: (name ++ gap ++ ['>'] ++ rest)) = none :=
      Block.guarded_of_front (Block.front_eq_none_iff.2 ⟨rfl, rfl⟩)
    rw [print, Tag.closeTag, List.cons_append, List.cons_append, List.cons_append, List.cons_append]
    exact Pattern.passes_cons_iff.2 ⟨front, free (Tag.free_closeTag (isName_of_isPlainName sound.1).isSlug.free sound.2) rest⟩
  | script element => cases plain

theorem print_script_ne_nil (element : FetchElement) : (script element).print ≠ [] := by
  rw [print, ScriptTexts.fetchScript_eq, ScriptTexts.bundledFetch_eq_body]
  exact List.append_ne_nil_of_right_ne_nil _ (List.cons_ne_nil _ _)

/-- A generated script is closed at its end. -/
theorem guarded_script {element : FetchElement} (sound : (script element).isSound = true) (rest : Text) :
    Block.guarded ((script element).print ++ rest) = some ((), rest) := by
  simp only [isSound, Bool.and_eq_true, List.all_eq_true] at sound
  have slashless := ScriptTexts.slashless_fetchBody sound.1 sound.2
  have spelled : (script element).print = ScriptTexts.fetchBody element ++ "</script>" := by
    rw [print, ScriptTexts.fetchScript_eq, ScriptTexts.bundledFetch_eq_body]
  obtain ⟨inside, begins⟩ : ∃ inside, ScriptTexts.fetchBody element = "<script>" ++ inside := by
    have front : ScriptTexts.fetchLookup = "<script>" ++ ("\n(function() \x7b\n  var root = document.getElementById(" : Text) := rfl
    rw [ScriptTexts.fetchBody, front, List.append_assoc]
    exact ⟨_, rfl⟩
  rw [begins] at slashless spelled
  have opened : Block.opening? "script" ((script element).print ++ rest) =
      some (("script" : Text), inside ++ ("</script>" ++ rest)) := by
    rw [spelled, List.append_assoc, List.append_assoc]
    rfl
  have apart : Script.Slashless inside := by
    rw [Script.Slashless, List.isChain_append] at slashless
    exact slashless.2.1
  have passes : Pattern.Passes (Block.closing? (Block.sameName? "script")) inside ("</script>" ++ rest) := by
    rintro before c after rfl
    have slash : Text.after? "</" (c :: after ++ ("</script>" ++ rest)) = none := by
      rw [Option.eq_none_iff_forall_ne_some]
      intro more found
      have whole : c :: (after ++ ("</script>" ++ rest)) = '<' :: '/' :: more := Text.eq_of_after? found
      obtain ⟨rfl, behind⟩ := List.cons.inj whole
      cases after with
      | nil => exact absurd (List.cons.inj behind).1 (by decide)
      | cons d after => exact (List.isChain_append_cons_cons.1 apart).2.1 ⟨rfl, (List.cons.inj behind).1⟩
    rw [Block.closing?, slash]
    rfl
  have closed : Pattern.seek? (Block.closing? (Block.sameName? "script")) ("</script>" ++ rest) = some ([], (), rest) := rfl
  rw [Block.guarded, opened, Option.some_or, Option.bind_eq_bind, Option.bind_some]
  dsimp only
  rw [Pattern.seek?_append passes, closed]
  rfl

end Token

/-- The stretches of blocks in a text that stands at an offset. -/
def blocksFrom (offset : Nat) (html : Text) : List Span :=
  (Pattern.located offset (Pattern.segments Block.guarded html)).filterMap fun place =>
    place.2.value?.map fun _ => ⟨place.1, place.1 + place.2.source.length⟩

theorem blocksFrom_append {piece rest : Text} (passes : Pattern.Passes Block.guarded piece rest) (offset : Nat) :
    blocksFrom offset (piece ++ rest) = blocksFrom (offset + piece.length) rest := by
  induction piece generalizing offset with
  | nil => rfl
  | cons c piece ih =>
    obtain ⟨here, later⟩ := Pattern.passes_cons_iff.1 passes
    have plain : Pattern.segments Block.guarded (c :: piece ++ rest) = .plain c :: Pattern.segments Block.guarded (piece ++ rest) := by
      rw [List.cons_append] at here ⊢
      rw [Pattern.segments, here]
    have size : offset + 1 + piece.length = offset + (c :: piece).length := by
      rw [List.length_cons]
      omega
    rw [blocksFrom, plain, ← size, ← ih later]
    rfl

theorem blocksFrom_hit {piece rest : Text} (nonempty : piece ≠ [])
    (taken : Block.guarded (piece ++ rest) = some ((), rest)) (offset : Nat) :
    blocksFrom offset (piece ++ rest) = ⟨offset, offset + piece.length⟩ :: blocksFrom (offset + piece.length) rest := by
  rw [blocksFrom, Pattern.segments_hit nonempty taken]
  rfl

variable {tokens : List Token}

/-- The blocks of a text are its scripts. -/
theorem blocksFrom_printTokens (sound : ∀ token ∈ tokens, token.isSound = true) (offset : Nat) :
    blocksFrom offset (printTokens tokens) = scriptSpans offset tokens := by
  induction tokens generalizing offset with
  | nil =>
    rw [blocksFrom, printTokens_nil, Pattern.segments]
    rfl
  | cons token tokens ih =>
    obtain ⟨here, later⟩ := List.forall_mem_cons.1 sound
    rw [printTokens_cons, scriptSpans]
    cases kind : token.isScript with
    | false => rw [blocksFrom_append (Token.passes_guarded here kind _), ih later, if_neg Bool.false_ne_true, List.nil_append]
    | true =>
      cases token with
      | script element =>
        have taken := Token.guarded_script here (printTokens tokens)
        rw [blocksFrom_hit (Token.print_script_ne_nil element) taken, ih later, if_pos rfl, List.singleton_append]
      | words | opening | closing => cases kind

theorem spans_printTokens (sound : ∀ token ∈ tokens, token.isSound = true) :
    Block.spans (printTokens tokens) = scriptSpans 0 tokens :=
  blocksFrom_printTokens sound 0

theorem scriptSpans_append (offset : Nat) (first second : List Token) :
    scriptSpans offset (first ++ second) =
      scriptSpans offset first ++ scriptSpans (offset + (printTokens first).length) second := by
  induction first generalizing offset with
  | nil => rfl
  | cons token first ih =>
    rw [List.cons_append, scriptSpans, scriptSpans, ih, List.append_assoc, printTokens_cons, List.length_append, Nat.add_assoc]

theorem bounds_of_mem_scriptSpans {offset : Nat} {span : Span} (member : span ∈ scriptSpans offset tokens) :
    offset ≤ span.start ∧ span.stop ≤ offset + (printTokens tokens).length := by
  induction tokens generalizing offset with
  | nil => cases member
  | cons token tokens ih =>
    rw [scriptSpans] at member
    rw [printTokens_cons, List.length_append]
    rcases List.mem_append.1 member with here | later
    · split at here
      · rw [List.mem_singleton.1 here]
        dsimp only
        omega
      · cases here
    · have bounds := ih later
      omega

/-! ### Tags -/

/-- Classes of characters that read the names of elements whole. -/
structure ReadsNames (first part : Char → Bool) : Prop where
  begins : ∀ c, c.isLower = true → first c = true
  continues : ∀ c, isTagNamePart c = true → part c = true
  stops : ∀ c, Tag.nameEnds [c] = true → part c = false
  slash : first '/' = false

theorem readsNames_element : ReadsNames Char.isLower fun c => c.isAlphanum || c == '-' where
  begins _ lower := lower
  continues _ part := part
  stops c ends := by simpa [isTagNamePart] using (stops_of_nameEnds ends).2
  slash := by decide

theorem readsNames_tag : ReadsNames Char.isAlpha isSlugPart where
  begins c lower := by simp [Char.isAlpha, lower]
  continues _ part := isSlugPart_of_isTagNamePart part
  stops c ends := by simpa using (stops_of_nameEnds ends).1
  slash := by decide

section Marks

variable {first part : Char → Bool} {blocks : List Span}

/-- What is covered, and what no tag begins in, is passed over. -/
theorem marksFrom_skip {piece rest : Text} {offset : Nat}
    (skips : ∀ before c after, piece = before ++ c :: after → covered blocks (offset + before.length) = true ∨ c ≠ '<') :
    marksFrom first part blocks offset (piece ++ rest) = marksFrom first part blocks (offset + piece.length) rest := by
  induction piece generalizing offset with
  | nil => rfl
  | cons c piece ih =>
    have here : (if covered blocks offset then none else mark? first part offset (c :: (piece ++ rest))) = none := by
      rcases skips [] c piece rfl with inside | other
      · rw [if_pos (by simpa using inside)]
      · rw [mark?_of_ne other, ite_self]
    have later := @ih (offset + 1) fun before d after whole => by
      have skipped := skips (c :: before) d after (by rw [whole, List.cons_append])
      rwa [List.length_cons, ← Nat.add_assoc, Nat.add_right_comm] at skipped
    rw [List.cons_append, marksFrom, here, List.length_cons, ← Nat.add_assoc, Nat.add_right_comm]
    exact later

/-- A tag is found where it begins. -/
theorem marksFrom_openTag (reads : ReadsNames first part) {name : Text} {head : PlainHead} (named : isPlainName name = true)
    (sound : head.isSound = true) {offset : Nat} (shown : covered blocks offset = false) (rest : Text) :
    marksFrom first part blocks offset (openTag name head.print ++ rest) =
      ⟨offset, name, head.print ++ '>' :: rest⟩ ::
        marksFrom first part blocks (offset + (openTag name head.print).length) rest := by
  have isHead := PlainHead.isTagHead_print sound
  have isName := Token.isName_of_isPlainName named
  have parts := isName.2
  obtain ⟨c, tail, rfl⟩ := List.exists_cons_of_ne_nil isName.1
  have lower : c.isLower = true := by
    simp only [isPlainName, isElementName, Bool.and_eq_true] at named
    exact named.1.1.1
  have ends : Tag.nameEnds (head.print ++ '>' :: rest) = true := by
    have ends := isHead.ends
    rw [List.append_cons]
    cases behind : head.print ++ ['>'] with
    | nil => exact absurd behind (List.append_ne_nil_of_right_ne_nil _ (List.cons_ne_nil _ _))
    | cons c more =>
      rw [behind] at ends
      exact ends
  have stops : (head.print ++ '>' :: rest).head?.all (fun d => !part d) = true := by
    cases behind : head.print ++ '>' :: rest with
    | nil => rfl
    | cons d more =>
      rw [behind] at ends
      simp [reads.stops d ends]
  have found := mark?_append (reads.begins c lower)
    (fun d member => reads.continues d (parts d (List.mem_cons_of_mem c member))) stops ends offset
  have whole : openTag (c :: tail) head.print ++ rest = '<' :: (c :: tail ++ (head.print ++ '>' :: rest)) := by
    simp [openTag]
  have skipped : marksFrom first part blocks (offset + 1) (c :: tail ++ head.print ++ ['>'] ++ rest) =
      marksFrom first part blocks (offset + 1 + (c :: tail ++ head.print ++ ['>']).length) rest :=
    marksFrom_skip fun before d after inside => .inr (free_tag isName.isSlug.free isHead d (by rw [inside]; simp))
  have size : offset + 1 + (c :: tail ++ head.print ++ ['>']).length =
      offset + (openTag (c :: tail) head.print).length := by
    simp only [openTag, List.length_append, List.length_cons]
    omega
  rw [whole, marksFrom, shown, if_neg Bool.false_ne_true, found]
  dsimp only
  rw [← size, ← skipped]
  simp

/-- No tag opens at a closing tag. -/
theorem marksFrom_closeTag (reads : ReadsNames first part) {name gap : Text} (named : Tag.IsName name) (space : IsSpace gap)
    (offset : Nat) (rest : Text) :
    marksFrom first part blocks offset (Tag.closeTag name gap ++ rest) =
      marksFrom first part blocks (offset + (Tag.closeTag name gap).length) rest := by
  have here : mark? first part offset ('<' :: ('/' :: name ++ gap ++ ['>'] ++ rest)) = none := by
    rw [List.cons_append, List.cons_append, List.cons_append, mark?, reads.slash, Bool.false_and,
      if_neg Bool.false_ne_true]
  have skipped : marksFrom first part blocks (offset + 1) ('/' :: name ++ gap ++ ['>'] ++ rest) =
      marksFrom first part blocks (offset + 1 + ('/' :: name ++ gap ++ ['>']).length) rest :=
    marksFrom_skip fun before d after inside => .inr (Tag.free_closeTag named.isSlug.free space d (by rw [inside]; simp))
  have size : offset + 1 + ('/' :: name ++ gap ++ ['>']).length = offset + (Tag.closeTag name gap).length := by
    simp only [Tag.closeTag, List.length_append, List.length_cons]
    omega
  have whole : Tag.closeTag name gap ++ rest = '<' :: ('/' :: name ++ gap ++ ['>'] ++ rest) := by simp [Tag.closeTag]
  rw [whole, marksFrom, here, ite_self]
  dsimp only
  rw [skipped, size]

/-- The tags of a text are found, whatever scripts stand before it. -/
theorem marksFrom_printTokens (reads : ReadsNames first part) (sound : ∀ token ∈ tokens, token.isSound = true)
    {front : List Span} {offset : Nat} (before : ∀ span ∈ front, span.stop ≤ offset) :
    marksFrom first part (front ++ scriptSpans offset tokens) offset (printTokens tokens) = marksOf offset tokens := by
  induction tokens generalizing front offset with
  | nil => rfl
  | cons token tokens ih =>
    obtain ⟨here, later⟩ := List.forall_mem_cons.1 sound
    have still : ∀ span ∈ front, span.stop ≤ offset + token.print.length :=
      fun span member => Nat.le_trans (before span member) (Nat.le_add_right _ _)
    have others := ih later still
    rw [printTokens_cons, scriptSpans, marksOf]
    cases token with
    | words text =>
      rw [Token.isScript, if_neg Bool.false_ne_true, List.nil_append, Token.print, Token.mark?, Option.toList_none, List.nil_append]
      rw [marksFrom_skip fun before c after whole => .inr (Token.ne_of_mem_words here c (by rw [whole]; simp))]
      exact others
    | closing name gap =>
      simp only [Token.isSound, Bool.and_eq_true, List.all_eq_true] at here
      rw [Token.isScript, if_neg Bool.false_ne_true, List.nil_append, Token.print, Token.mark?, Option.toList_none, List.nil_append,
        marksFrom_closeTag reads (Token.isName_of_isPlainName here.1) here.2]
      exact others
    | opening name head =>
      simp only [Token.isSound, Bool.and_eq_true] at here
      have shown : covered (front ++ scriptSpans (offset + (openTag name head.print).length) tokens) offset = false := by
        rw [covered, List.any_eq_false]
        intro span member covers
        simp only [Span.covers, Bool.and_eq_true, decide_eq_true_eq] at covers
        rcases List.mem_append.1 member with inFront | inScripts
        · have bound := before span inFront
          omega
        · have bounds := bounds_of_mem_scriptSpans inScripts
          have size : 0 < (openTag name head.print).length := by simp [openTag]
          omega
      rw [Token.isScript, if_neg Bool.false_ne_true, List.nil_append, Token.print, Token.mark?, Option.toList_some,
        List.singleton_append, marksFrom_openTag reads here.1 here.2 shown]
      exact congrArg _ others
    | script element =>
      have stops : ∀ span ∈ front ++ [⟨offset, offset + (Token.script element).print.length⟩],
          span.stop ≤ offset + (Token.script element).print.length := by
        intro span member
        rcases List.mem_append.1 member with inFront | only
        · exact still span inFront
        · rw [List.mem_singleton.1 only]
      rw [Token.isScript, if_pos rfl, ← List.append_assoc, Token.mark?, Option.toList_none, List.nil_append, ← ih later stops]
      refine marksFrom_skip fun before c after whole => .inl ?_
      have inside : before.length < (Token.script element).print.length := by
        rw [whole, List.length_append, List.length_cons]
        omega
      rw [covered, List.any_eq_true]
      refine ⟨⟨offset, offset + (Token.script element).print.length⟩, by simp, ?_⟩
      simp only [Span.covers, Bool.and_eq_true, decide_eq_true_eq]
      omega

/-- The tags behind a place in a text. -/
theorem marksFrom_drop_printTokens (reads : ReadsNames first part) {before behind : List Token}
    (sound : ∀ token ∈ before ++ behind, token.isSound = true) :
    marksFrom first part (Block.spans (printTokens (before ++ behind))) (printTokens before).length
      ((printTokens (before ++ behind)).drop (printTokens before).length) = marksOf (printTokens before).length behind := by
  have later : ∀ token ∈ behind, token.isSound = true := fun token member => sound token (List.mem_append_right before member)
  rw [spans_printTokens sound, scriptSpans_append, printTokens_append, List.drop_left, Nat.zero_add]
  refine marksFrom_printTokens reads later fun span member => ?_
  have bounds := bounds_of_mem_scriptSpans member
  omega

end Marks

end Fetch

end ComponentPages
