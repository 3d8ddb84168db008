import ComponentPages.Proofs.Markup.Mark
import ComponentPages.Proofs.Markup.Unclosed

/-!
Components printed as text, nested in each other. The search for component tags, repeated from the end of each tag
that it finds, reads back the components at the top.
-/
namespace ComponentPages

namespace TagHead

/-- Whether a text closes the quotations and braces that are open before it and in it, and ends no tag. -/
def closes (quote : Option Char) (braces : Nat) : Text → Bool
  | [] => quote.isNone && braces == 0
  | c :: rest =>
    match quote with
    | some q => closes (if c = q then none else some q) braces rest
    | none =>
      !(c == '>' && braces == 0) &&
        closes (if isQuote c then some c else none)
          (if c = '\x7b' then braces + 1 else if c = '\x7d' then braces - 1 else braces) rest

end TagHead

/-- Attribute text of a component: set off from the name, and whole in itself. -/
def isAttributeText (text : Text) : Bool :=
  (text.head?.all fun c => (" \t\r\n" : Text).elem c) && !text.elem '<' && TagHead.closes none 0 text

/-- Whether a text begins like a tag of a component. -/
def opensName : Text → Bool
  | '<' :: '/' :: c :: _ => c.isUpper
  | '<' :: c :: _ => c.isUpper
  | _ => false

/-- Whether no tag of a component begins in a text. -/
def isUntagged : Text → Bool
  | [] => true
  | c :: rest => !opensName (c :: rest) && isUntagged rest

/-- Text between components: it holds no tag of one, and closes no script and no style. -/
def isBetween (text : Text) : Bool :=
  isUntagged text && (["script", "style"] : List Text).all fun word =>
    (Pattern.seek? (Block.closing? (Text.afterFolded? word)) text).isNone

/-- Text with components in it; each component comes with the text before it. -/
inductive Forest where
  | done (words : Text)
  | closed (words name attributes : Text) (rest : Forest)
  | paired (words name attributes : Text) (inner rest : Forest)
deriving DecidableEq

/-- The tag that opens a component, or that is one. -/
def openTag (name head : Text) : Text := '<' :: name ++ head ++ ['>']

namespace Forest

def print : Forest → Text
  | .done words => words
  | .closed words name attributes rest => words ++ (openTag name (attributes ++ ['/']) ++ rest.print)
  | .paired words name attributes inner rest =>
    words ++ (openTag name attributes ++ (inner.print ++ ((Piece.closing name).print ++ rest.print)))

/-- The components at the top, for a forest that is printed from an offset on. -/
def tags (offset : Nat) : Forest → List ComponentTag
  | .done _ => []
  | .closed words name attributes rest =>
    let start := offset + words.length
    let stop := start + (name.length + attributes.length + 3)
    ⟨start, stop, name, true, Text.trim attributes, []⟩ :: rest.tags stop
  | .paired words name attributes inner rest =>
    let start := offset + words.length
    let stop := start + (name.length + attributes.length + 2) + inner.print.length + (name.length + 3)
    ⟨start, stop, name, false, Text.trim attributes, inner.print⟩ :: rest.tags stop

/-- Names are those of components, and the attribute text of a pair does not look like the end of a single tag. -/
def isWellFormed : Forest → Bool
  | .done words => isBetween words
  | .closed words name attributes rest =>
    isBetween words && isPascalCase name && isAttributeText attributes && rest.isWellFormed
  | .paired words name attributes inner rest =>
    isBetween words && isPascalCase name && isAttributeText attributes && !TagHead.closesItself attributes &&
      inner.isWellFormed && rest.isWellFormed

/-- No pair of tags is a script or a style. -/
def isUnblocked : Forest → Bool
  | .done _ => true
  | .closed _ _ _ rest => rest.isUnblocked
  | .paired _ name _ inner rest => !namesBlock name && inner.isUnblocked && rest.isUnblocked

end Forest

namespace ComponentTag

/-- All component tags from an offset on, each searched from the end of the one before. -/
def tagsFrom (html : Text) (start : Nat) : Except Failure (List ComponentTag) :=
  match _found : next? html start with
  | .error failure => .error failure
  | .ok none => .ok []
  | .ok (some tag) => (tagsFrom html tag.stop).map (tag :: ·)
termination_by html.length - start
decreasing_by
  have bounds := bounds_of_next? _found
  omega

end ComponentTag

namespace TagHead

/-- A head that closes what it opens is read up to the end of the tag. -/
theorem split?_of_closes {quote : Option Char} {braces : Nat} {text : Text}
    (whole : closes quote braces text = true) (rest : Text) :
    split? quote braces (text ++ rest) = (split? none 0 rest).map (prepend text) := by
  induction text generalizing quote braces with
  | nil =>
    simp only [closes, Bool.and_eq_true, Option.isNone_iff_eq_none, beq_iff_eq] at whole
    rw [whole.1, whole.2, List.nil_append, map_prepend_nil]
  | cons c text ih =>
    cases quote with
    | some q =>
      rw [closes] at whole
      rw [List.cons_append, split?, ih whole]
      exact map_prepend_prepend [c] text _
    | none =>
      simp only [closes, Bool.and_eq_true, Bool.not_eq_true', Bool.and_eq_false_iff, beq_eq_false_iff_ne] at whole
      have goesOn : ¬(c = '>' ∧ braces = 0) := fun ends => whole.1.elim (· ends.1) (· ends.2)
      rw [List.cons_append, split?, if_neg goesOn]
      dsimp only
      rw [ih whole.2]
      exact map_prepend_prepend [c] text _

theorem closes_concat {quote : Option Char} {braces : Nat} {text : Text} (whole : closes quote braces text = true)
    {c : Char} (flat : c ≠ '>' ∧ isQuote c = false ∧ Placeholder.isBrace c = false) :
    closes quote braces (text ++ [c]) = true := by
  induction text generalizing quote braces with
  | nil =>
    simp only [closes, Bool.and_eq_true, Option.isNone_iff_eq_none, beq_iff_eq] at whole
    simp only [Placeholder.isBrace, Bool.or_eq_false_iff, beq_eq_false_iff_ne] at flat
    simp [closes, whole.1, whole.2, flat]
  | cons d text ih =>
    cases quote with
    | some q =>
      rw [closes] at whole
      rw [List.cons_append, closes]
      exact ih whole
    | none =>
      rw [closes, Bool.and_eq_true] at whole
      rw [List.cons_append, closes, Bool.and_eq_true]
      exact ⟨whole.1, ih whole.2⟩

end TagHead

/-- The head of a tag that is printed behind the tag's name. -/
structure IsTagHead (head : Text) : Prop where
  reads : ∀ rest, TagHead.read? (head ++ '>' :: rest) = some (head, rest)
  ends : Tag.nameEnds (head ++ ['>']) = true
  free : ∀ c ∈ head, c ≠ '<'

theorem IsTagHead.nameEnds_append {head : Text} (isHead : IsTagHead head) (rest : Text) :
    Tag.nameEnds (head ++ '>' :: rest) = true := by
  have ends := isHead.ends
  cases head with
  | nil => rfl
  | cons c head => exact ends

theorem openTag_append (name head rest : Text) : openTag name head ++ rest = '<' :: (name ++ (head ++ '>' :: rest)) := by
  simp [openTag]

/-- The head of a tag that is printed behind the name of a component. -/
structure IsHead (head : Text) : Prop extends IsTagHead head where
  begins : ∃ c more, head ++ ['>'] = c :: more ∧ c ∈ (" \t\r\n/>" : Text)

theorem nameEnds_of_begins {text : Text} (begins : ∃ c more, text = c :: more ∧ c ∈ (" \t\r\n/>" : Text)) :
    Tag.nameEnds text = true := by
  obtain ⟨c, more, rfl, mark⟩ := begins
  have all : ∀ d ∈ (" \t\r\n/>" : Text), Tag.nameEnds [d] = true := by decide
  exact all c mark

theorem TagHead.read?_of_closes {head : Text} (whole : closes none 0 head = true) (rest : Text) :
    read? (head ++ '>' :: rest) = some (head, rest) := by
  rw [read?, split?_of_closes whole, split?, if_pos ⟨rfl, rfl⟩, Option.map_some, prepend]
  simp

theorem isHead_of_isAttributeText {attributes : Text} (sound : isAttributeText attributes = true) : IsHead attributes := by
  simp only [isAttributeText, Bool.and_eq_true, Bool.not_eq_true'] at sound
  obtain ⟨⟨space, free⟩, whole⟩ := sound
  have begins : ∃ c more, attributes ++ ['>'] = c :: more ∧ c ∈ (" \t\r\n/>" : Text) := by
    cases attributes with
    | nil => exact ⟨'>', [], rfl, by decide⟩
    | cons c rest =>
      have wider : ∀ d ∈ (" \t\r\n" : Text), d ∈ (" \t\r\n/>" : Text) := by decide
      exact ⟨c, rest ++ ['>'], rfl, wider c (List.mem_of_elem_eq_true space)⟩
  refine ⟨⟨TagHead.read?_of_closes whole, nameEnds_of_begins begins, ?_⟩, begins⟩
  rintro c member rfl
  rw [List.elem_eq_true_of_mem member] at free
  cases free

theorem isHead_concat_slash {attributes : Text} (sound : isAttributeText attributes = true) :
    IsHead (attributes ++ ['/']) := by
  have head := isHead_of_isAttributeText sound
  simp only [isAttributeText, Bool.and_eq_true] at sound
  have begins : ∃ c more, attributes ++ ['/'] ++ ['>'] = c :: more ∧ c ∈ (" \t\r\n/>" : Text) := by
    obtain ⟨c, more, same, mark⟩ := head.begins
    cases attributes with
    | nil => exact ⟨'/', ['>'], rfl, by decide⟩
    | cons d rest =>
      obtain rfl := (List.cons.inj same).1
      exact ⟨d, rest ++ ['/'] ++ ['>'], rfl, mark⟩
  refine ⟨⟨TagHead.read?_of_closes (TagHead.closes_concat sound.2 (by decide)), nameEnds_of_begins begins, ?_⟩, begins⟩
  intro c member
  rcases List.mem_append.1 member with inside | last
  · exact head.free c inside
  · rw [List.mem_singleton.1 last]
    decide

/-- The end of the text, or the angle bracket of a tag. -/
def AtTag (rest : Text) : Prop := ∀ c, rest.head? = some c → c = '<'

theorem atTag_nil : AtTag [] := by
  intro c first
  cases first

theorem atTag_openTag (name head rest : Text) : AtTag (openTag name head ++ rest) := by
  intro c first
  exact (Option.some.inj first).symm

theorem atTag_closing (name rest : Text) : AtTag ((Piece.closing name).print ++ rest) := by
  intro c first
  exact (Option.some.inj first).symm

theorem opensName_of_ne {c : Char} (other : c ≠ '<') (text : Text) : opensName (c :: text) = false := by
  unfold opensName
  split
  · next same => exact absurd (List.cons.inj same).1 other
  · next same => exact absurd (List.cons.inj same).1 other
  · rfl

theorem opensName_slash (text : Text) : opensName ('<' :: '/' :: text) = text.head?.any Char.isUpper := by
  cases text <;> rfl

theorem opensName_of_ne_slash {c : Char} (other : c ≠ '/') (text : Text) : opensName ('<' :: c :: text) = c.isUpper := by
  unfold opensName
  split
  · next same => exact absurd (List.cons.inj (List.cons.inj same).2).1 other
  · next same => rw [(List.cons.inj (List.cons.inj same).2).1]
  · next noSlash no => exact absurd rfl (no c text)

section Searching

variable {rest : Text} (border : AtTag rest)
include border

/-- In text where no tag begins, none begins at the border to a tag. -/
theorem opensName_append {text : Text} (nonempty : text ≠ []) (plain : opensName text = false) :
    opensName (text ++ rest) = false := by
  have first : rest.head?.any Char.isUpper = false := by
    cases head : rest.head? with
    | none => rfl
    | some c =>
      obtain rfl := border c head
      decide
  obtain ⟨c, text, rfl⟩ := List.exists_cons_of_ne_nil nonempty
  by_cases angle : c = '<'
  · subst angle
    cases text with
    | nil =>
      cases rest with
      | nil => rfl
      | cons d rest =>
        obtain rfl := border d rfl
        exact opensName_of_ne_slash (by decide) rest
    | cons d text =>
      by_cases slash : d = '/'
      · subst slash
        rw [opensName_slash] at plain
        rw [List.cons_append, List.cons_append, opensName_slash]
        cases text with
        | nil => exact first
        | cons e text => exact plain
      · rw [opensName_of_ne_slash slash] at plain
        rw [List.cons_append, List.cons_append, opensName_of_ne_slash slash, plain]
  · exact opensName_of_ne angle _

theorem opensName_of_isUntagged {words : Text} (untagged : isUntagged words = true) {before after : Text} {c : Char}
    (whole : words = before ++ c :: after) : opensName (c :: after ++ rest) = false := by
  apply opensName_append border (List.cons_ne_nil c after)
  induction before generalizing words with
  | nil =>
    subst whole
    simp only [List.nil_append, isUntagged, Bool.and_eq_true, Bool.not_eq_true'] at untagged
    exact untagged.1
  | cons d before ih =>
    subst whole
    simp only [List.cons_append, isUntagged, Bool.and_eq_true] at untagged
    exact ih untagged.2 rfl

end Searching

theorem ComponentTag.mark?_of_not_opensName {text : Text} (plain : opensName text = false) (offset : Nat) :
    mark? offset text = none := by
  unfold mark?
  split
  · next rest =>
    rw [opensName_slash] at plain
    cases rest with
    | nil => rfl
    | cons c rest => rw [named?, if_neg (by simpa using plain)]
  · next rest noSlash =>
    cases rest with
    | nil => rfl
    | cons c rest =>
      have other : c ≠ '/' := fun same => noSlash rest (by rw [same])
      rw [opensName_of_ne_slash other] at plain
      rw [named?, if_neg (by simpa using plain)]
  · rfl

theorem Tag.named?_of_not_opensName {name text : Text} (pascal : isPascalCase name = true)
    (plain : opensName text = false) : named? name text = none := by
  cases name with
  | nil => cases pascal
  | cons c name =>
    simp only [isPascalCase, Bool.and_eq_true] at pascal
    have noSlash : c ≠ '/' := by
      rintro rfl
      exact absurd pascal.1 (by decide)
    have closing : Text.after? (['<', '/'] ++ c :: name) text = none := by
      cases found : Text.after? (['<', '/'] ++ c :: name) text with
      | none => rfl
      | some rest =>
        rw [Text.eq_of_after? found] at plain
        have upper := opensName_slash (c :: name ++ rest)
        rw [List.append_assoc] at plain
        exact absurd (plain.symm.trans upper) (by simp [pascal.1])
    have opening : Text.after? ('<' :: c :: name) text = none := by
      cases found : Text.after? ('<' :: c :: name) text with
      | none => rfl
      | some rest =>
        rw [Text.eq_of_after? found, List.cons_append, List.cons_append, opensName_of_ne_slash noSlash, pascal.1] at plain
        cases plain
    rw [named?, closing, opening]
    rfl

namespace ComponentTag

theorem marksFrom_of_isUntagged {words : Text} (untagged : isUntagged words = true) {rest : Text}
    (border : AtTag rest) (offset : Nat) :
    marksFrom [] offset (words ++ rest) = marksFrom [] (offset + words.length) rest := by
  induction words generalizing offset with
  | nil => rfl
  | cons c words ih =>
    have plain : opensName (c :: words ++ rest) = false := opensName_of_isUntagged border untagged (List.nil_append _).symm
    have later : isUntagged words = true := by
      simp only [isUntagged, Bool.and_eq_true] at untagged
      exact untagged.2
    rw [List.cons_append] at plain ⊢
    rw [marksFrom, covered_nil, if_neg Bool.false_ne_true, mark?_of_not_opensName plain]
    dsimp only [Option.filter]
    rw [ih later, List.length_cons, Nat.add_right_comm, Nat.add_assoc]

/-- The search stops at the tag that opens a component. -/
theorem marksFrom_openTag {name head : Text} (pascal : isPascalCase name = true) (isHead : IsHead head) (offset : Nat)
    (rest : Text) :
    ∃ others, marksFrom [] offset (openTag name head ++ rest) = ⟨offset, false, name, head ++ '>' :: rest⟩ :: others := by
  obtain ⟨c, more, begins, mark⟩ := isHead.begins
  have stops : c.isAlphanum = false := by
    have all : ∀ d ∈ (" \t\r\n/>" : Text), d.isAlphanum = false := by decide
    exact all c mark
  have behind : head ++ '>' :: rest = c :: (more ++ rest) := by
    rw [← List.cons_append, ← begins, List.append_assoc, List.singleton_append]
  have whole : openTag name head ++ rest = '<' :: (name ++ c :: (more ++ rest)) := by
    rw [← behind]
    simp [openTag]
  have read := named?_append pascal offset false stops (more ++ rest)
  have marked : mark? offset ('<' :: (name ++ c :: (more ++ rest))) =
      some ⟨offset, false, name, c :: (more ++ rest)⟩ := by
    cases name with
    | nil => cases pascal
    | cons d name =>
      simp only [isPascalCase, Bool.and_eq_true] at pascal
      rw [← read, List.cons_append, mark?]
      rintro text ⟨rfl, -⟩
      exact absurd pascal.1 (by decide)
  have counts : Mark.counts ⟨offset, false, name, c :: (more ++ rest)⟩ = true := by
    rw [Mark.counts, Bool.false_or]
    exact List.elem_eq_true_of_mem mark
  rw [behind, whole, marksFrom, covered_nil, if_neg Bool.false_ne_true, marked, Option.filter_some, if_pos counts]
  exact ⟨_, rfl⟩

end ComponentTag

theorem isTagNamePart_of_isPascalCase {name : Text} (pascal : isPascalCase name = true) :
    ∀ c ∈ name, isTagNamePart c = true := by
  cases name with
  | nil => cases pascal
  | cons d name =>
    simp only [isPascalCase, Bool.and_eq_true, List.all_eq_true] at pascal
    intro c member
    rcases List.mem_cons.1 member with rfl | later
    · simp [isTagNamePart, Char.isAlphanum, Char.isAlpha, pascal.1]
    · simp [isTagNamePart, pascal.2 c later]

theorem isTagName_of_isPascalCase {name : Text} (pascal : isPascalCase name = true) (unblocked : namesBlock name = false) :
    isTagName name = true := by
  rw [isTagName, pascal, unblocked]
  rfl

theorem isName_of_isPascalCase {name : Text} (pascal : isPascalCase name = true) : Tag.IsName name := by
  refine ⟨?_, isTagNamePart_of_isPascalCase pascal⟩
  rintro rfl
  cases pascal

theorem free_tag {name head : Text} (free : ∀ c ∈ name, c ≠ '<') (isHead : IsTagHead head) :
    ∀ c ∈ name ++ head ++ ['>'], c ≠ '<' := by
  intro c member
  rcases List.mem_append.1 member with inside | last
  · rcases List.mem_append.1 inside with inName | inHead
    · exact free c inName
    · exact isHead.free c inHead
  · rw [List.mem_singleton.1 last]
    decide

theorem free_openTag {name head : Text} (pascal : isPascalCase name = true) (isHead : IsHead head) :
    ∀ c ∈ name ++ head ++ ['>'], c ≠ '<' :=
  free_tag (isName_of_isPascalCase pascal).isSlug.free isHead.toIsTagHead

namespace Tag

variable {name other head : Text}

theorem named?_openTag (named : IsSlug name) (otherNamed : IsSlug other) (isHead : IsTagHead head) (rest : Text) :
    named? name (openTag other head ++ rest) = if other = name then some (false, head ++ '>' :: rest) else none := by
  obtain ⟨c, more, behind⟩ := List.exists_cons_of_ne_nil (List.append_ne_nil_of_right_ne_nil head (List.cons_ne_nil '>' rest))
  have ends : nameEnds [c] = true := by
    have ends := isHead.nameEnds_append rest
    rw [behind] at ends
    exact ends
  have noClosing : Text.after? (['<', '/'] ++ name) ('<' :: (other ++ c :: more)) = none := by
    obtain ⟨d, tail, rfl, noSlash⟩ := otherNamed.name_eq
    simp [Text.after?, noSlash.symm]
  have opening : Text.after? ('<' :: name) ('<' :: (other ++ c :: more)) = Text.after? name (other ++ c :: more) := by
    rw [Text.after?, if_pos rfl]
  rw [openTag_append, behind, named?, noClosing, opening, after?_of_parts named.2 otherNamed.2 ends]
  split <;> rfl

/-- An opening tag of the name that is searched for raises the depth, any other one is passed over. -/
theorem closeFrom?_openTag (named : IsSlug name) (otherNamed : IsSlug other) (isHead : IsTagHead head)
    (depth offset : Nat) (rest : Text) :
    closeFrom? [] name depth offset (openTag other head ++ rest) =
      closeFrom? [] name (if other = name ∧ TagHead.closesItself head = false then depth + 1 else depth)
        (offset + (openTag other head).length) rest := by
  have front := named?_openTag named otherNamed isHead rest
  have behind (depth : Nat) : closeFrom? [] name depth (offset + 1) (other ++ head ++ ['>'] ++ rest) =
      closeFrom? [] name depth (offset + (openTag other head).length) rest := by
    rw [closeFrom?_free (free_tag otherNamed.free isHead), openTag, List.cons_append, List.cons_append, List.length_cons,
      Nat.add_right_comm, Nat.add_assoc]
  have whole : openTag other head ++ rest = '<' :: (other ++ head ++ ['>'] ++ rest) := by simp [openTag]
  rw [whole] at front ⊢
  rw [closeFrom?, covered_nil, if_neg Bool.false_ne_true, front]
  by_cases same : other = name
  · rw [if_pos same]
    dsimp only
    rw [isHead.reads rest]
    dsimp only
    cases closes : TagHead.closesItself head with
    | true => simpa using behind depth
    | false => simpa [same] using behind (depth + 1)
  · rw [if_neg same, if_neg fun both => same both.1]
    exact behind depth

end Tag

theorem closesItself_concat_slash (attributes : Text) : TagHead.closesItself (attributes ++ ['/']) = true := by
  rw [TagHead.closesItself, Text.trimRight_concat_of_not_blank (by decide), List.getLast?_concat]
  rfl

namespace Forest

/-- A forest leaves the depth as it is, whatever the name that is searched for. -/
theorem closeFrom?_print {forest : Forest} (sound : forest.isWellFormed = true) {name : Text}
    (pascal : isPascalCase name = true) {depth : Nat} (inside : 1 ≤ depth) (offset : Nat) {rest : Text}
    (border : AtTag rest) :
    Tag.closeFrom? [] name depth offset (forest.print ++ rest) =
      Tag.closeFrom? [] name depth (offset + forest.print.length) rest := by
  have between {words : Text} (between : isBetween words = true) {depth : Nat} (offset : Nat) {rest : Text}
      (border : AtTag rest) : Tag.closeFrom? [] name depth offset (words ++ rest) =
        Tag.closeFrom? [] name depth (offset + words.length) rest := by
    rw [isBetween, Bool.and_eq_true] at between
    apply Tag.closeFrom?_passes
    intro before c after whole
    exact Tag.named?_of_not_opensName pascal (opensName_of_isUntagged border between.1 whole)
  have named := isName_of_isPascalCase pascal
  induction forest generalizing depth offset rest with
  | done words => exact between sound offset border
  | closed words other attributes later ih =>
    simp only [isWellFormed, Bool.and_eq_true] at sound
    obtain ⟨⟨⟨words', otherPascal⟩, attributes'⟩, later'⟩ := sound
    rw [print, List.append_assoc, List.append_assoc, between words' offset (atTag_openTag other _ _),
      Tag.closeFrom?_openTag named.isSlug (isName_of_isPascalCase otherPascal).isSlug (isHead_concat_slash attributes').toIsTagHead,
      if_neg (fun both => by simp [closesItself_concat_slash] at both), ih later' inside _ border,
      List.length_append, List.length_append, Nat.add_assoc, Nat.add_assoc]
  | paired words other attributes inner later ihInner ihLater =>
    simp only [isWellFormed, Bool.and_eq_true, Bool.not_eq_true'] at sound
    obtain ⟨⟨⟨⟨⟨words', otherPascal⟩, attributes'⟩, opens⟩, inner'⟩, later'⟩ := sound
    have otherNamed := isName_of_isPascalCase otherPascal
    have whole : (paired words other attributes inner later).print ++ rest =
        words ++ (openTag other attributes ++ (inner.print ++ ((Piece.closing other).print ++ (later.print ++ rest)))) := by
      simp [print]
    have size : offset + (paired words other attributes inner later).print.length =
        offset + words.length + (openTag other attributes).length + inner.print.length +
          (Piece.closing other).print.length + later.print.length := by
      simp only [print, List.length_append]
      omega
    have atClosing := atTag_closing other (later.print ++ rest)
    rw [whole, size, between words' offset (atTag_openTag other _ _),
      Tag.closeFrom?_openTag named.isSlug otherNamed.isSlug (isHead_of_isAttributeText attributes').toIsTagHead]
    -- The pair raises the depth for what is in it if it has the name that is searched for, and lowers it again.
    by_cases same : other = name
    · rw [if_pos ⟨same, opens⟩, ihInner inner' (by omega) _ atClosing,
        Tag.closeFrom?_closing named otherNamed, if_pos same, if_neg (by omega), Nat.add_sub_cancel,
        ihLater later' inside _ border]
    · rw [if_neg fun both => same both.1, ihInner inner' inside _ atClosing,
        Tag.closeFrom?_closing named otherNamed, if_neg same, ihLater later' inside _ border]

/-- No tag of a printed forest closes a script or a style. -/
theorem unclosed_print {forest : Forest} (sound : forest.isWellFormed = true) (unblocked : forest.isUnblocked = true)
    {word : Text} (block : word = "script" ∨ word = "style") :
    Pattern.Absent (Block.closing? (Text.afterFolded? word)) forest.print := by
  have between {words : Text} (between : isBetween words = true) :
      Pattern.Absent (Block.closing? (Text.afterFolded? word)) words := by
    simp only [isBetween, Bool.and_eq_true, List.all_eq_true, Option.isNone_iff_eq_none] at between
    exact Pattern.absent_of_seek? (between.2 word (by rcases block with rfl | rfl <;> decide))
  have opening {name head : Text} (pascal : isPascalCase name = true) (isHead : IsHead head) (rest : Text) :
      Pattern.Passes (Block.closing? (Text.afterFolded? word)) (openTag name head) rest := by
    refine Pattern.passes_cons_iff.2 ⟨?_, Pattern.passes_of_begins rest fun c member text =>
      Block.closing?_of_ne _ c text (free_openTag pascal isHead c member)⟩
    cases name with
    | nil => cases pascal
    | cons c name =>
      simp only [isPascalCase, Bool.and_eq_true] at pascal
      have noSlash : '/' ≠ c := by
        rintro rfl
        exact absurd pascal.1 (by decide)
      simp [Block.closing?, Text.after?, noSlash]
  induction forest with
  | done words => exact between sound
  | closed words name attributes rest ih =>
    simp only [isWellFormed, Bool.and_eq_true] at sound
    obtain ⟨⟨⟨words', pascal⟩, attributes'⟩, rest'⟩ := sound
    refine Pattern.absent_append_iff.2 ⟨Block.passes_closing? block (between words') (atTag_openTag name _ _), ?_⟩
    exact Pattern.absent_append_iff.2 ⟨opening pascal (isHead_concat_slash attributes') _, ih rest' unblocked⟩
  | paired words name attributes inner rest ihInner ihRest =>
    simp only [isWellFormed, Bool.and_eq_true, Bool.not_eq_true'] at sound
    obtain ⟨⟨⟨⟨⟨words', pascal⟩, attributes'⟩, opens⟩, inner'⟩, rest'⟩ := sound
    simp only [isUnblocked, Bool.and_eq_true, Bool.not_eq_true'] at unblocked
    obtain ⟨⟨nameUnblocked, innerUnblocked⟩, restUnblocked⟩ := unblocked
    refine Pattern.absent_append_iff.2 ⟨Block.passes_closing? block (between words') (atTag_openTag name _ _), ?_⟩
    refine Pattern.absent_append_iff.2 ⟨opening pascal (isHead_of_isAttributeText attributes') _, ?_⟩
    refine Pattern.absent_append_iff.2
      ⟨Block.passes_closing? block (ihInner inner' innerUnblocked) (atTag_closing name _), ?_⟩
    refine Pattern.absent_append_iff.2 ⟨?_, ihRest rest' restUnblocked⟩
    have named := isTagName_of_isPascalCase pascal nameUnblocked
    refine Pattern.passes_cons_iff.2
      ⟨Block.closing?_closing (Block.readsBlocks_afterFolded? block) named rest.print, ?_⟩
    refine Pattern.passes_of_begins rest.print fun c member text => Block.closing?_of_ne _ c text ?_
    rcases List.mem_append.1 member with inside | last
    · rcases List.mem_cons.1 inside with rfl | inName
      · decide
      · exact ne_of_isTagNamePart (isTagNamePart_of_isPascalCase pascal c inName) (by decide)
    · rw [List.mem_singleton.1 last]
      decide

theorem spans_print {forest : Forest} (sound : forest.isWellFormed = true) (unblocked : forest.isUnblocked = true) :
    Block.spans forest.print = [] :=
  Block.spans_of_absent (Block.absent_guarded_of_unclosed fun _ block => unclosed_print sound unblocked block)

end Forest

namespace ComponentTag

theorem tagsFrom_of_none {html : Text} {start : Nat} (found : next? html start = .ok none) :
    tagsFrom html start = .ok [] := by
  rw [tagsFrom]
  split
  · next found' =>
    rw [found] at found'
    cases found'
  · rfl
  · next found' =>
    rw [found] at found'
    cases found'

theorem tagsFrom_of_some {html : Text} {start : Nat} {tag : ComponentTag} (found : next? html start = .ok (some tag)) :
    tagsFrom html start = (tagsFrom html tag.stop).map (tag :: ·) := by
  rw [tagsFrom]
  split
  · next found' =>
    rw [found] at found'
    cases found'
  · next found' =>
    rw [found] at found'
    cases found'
  · next found' =>
    rw [found] at found'
    cases found'
    rfl

variable {html before words name attributes : Text} {rest : Text}

/-- Behind text between components the search stops at the tag that opens one. -/
theorem next?_openTag (unblocked : Block.spans html = []) {head : Text}
    (whole : html = before ++ (words ++ (openTag name head ++ rest))) (between : isBetween words = true)
    (pascal : isPascalCase name = true) (isHead : IsHead head) :
    next? html before.length =
      (ofMark html ⟨before.length + words.length, false, name, head ++ '>' :: rest⟩).map some := by
  rw [isBetween, Bool.and_eq_true] at between
  obtain ⟨others, marked⟩ := marksFrom_openTag pascal isHead (before.length + words.length) rest
  have behind := marksFrom_of_isUntagged between.1 (atTag_openTag name head rest) before.length
  rw [next?, marks, unblocked, whole, List.drop_left, behind, marked]
  rfl

theorem next?_closed (unblocked : Block.spans html = [])
    (whole : html = before ++ (words ++ (openTag name (attributes ++ ['/']) ++ rest))) (between : isBetween words = true)
    (pascal : isPascalCase name = true) (sound : isAttributeText attributes = true) :
    next? html before.length =
      .ok (some ⟨before.length + words.length, before.length + words.length + (name.length + attributes.length + 3),
        name, true, Text.trim attributes, []⟩) := by
  have isHead := isHead_concat_slash sound
  rw [next?_openTag unblocked whole between pascal isHead, ofMark]
  dsimp only
  rw [isHead.reads]
  dsimp only
  rw [closesItself_concat_slash, if_pos rfl, Text.trimRight_concat_of_not_blank (by decide), List.dropLast_concat,
    List.length_append, List.length_singleton, Except.map]
  congr 3
  omega

theorem next?_paired (unblocked : Block.spans html = []) {inner : Forest}
    (whole : html = before ++ (words ++ (openTag name attributes ++ (inner.print ++ ((Piece.closing name).print ++ rest)))))
    (between : isBetween words = true) (pascal : isPascalCase name = true) (sound : isAttributeText attributes = true)
    (opens : TagHead.closesItself attributes = false) (innerSound : inner.isWellFormed = true) :
    next? html before.length =
      .ok (some ⟨before.length + words.length,
        before.length + words.length + (name.length + attributes.length + 2) + inner.print.length + (name.length + 3),
        name, false, Text.trim attributes, inner.print⟩) := by
  have isHead := isHead_of_isAttributeText sound
  have named := isName_of_isPascalCase pascal
  have closes := Forest.closeFrom?_print innerSound pascal (Nat.le_refl 1)
    (before.length + words.length + 1 + name.length + attributes.length + 1) (atTag_closing name rest)
  rw [Tag.closeFrom?_closing named named, if_pos rfl, if_pos (Nat.le_refl 1)] at closes
  rw [next?_openTag unblocked whole between pascal isHead, ofMark]
  dsimp only
  rw [isHead.reads]
  dsimp only
  rw [opens, if_neg Bool.false_ne_true, unblocked, closes]
  dsimp only
  rw [Nat.add_sub_cancel_left, List.take_left, Except.map]
  congr 3
  simp only [Piece.print, List.length_append, List.length_cons, List.length_nil]
  omega

end ComponentTag

namespace Forest

theorem tagsFrom_print_append {html before : Text} (blockless : Block.spans html = []) {forest : Forest}
    (whole : html = before ++ forest.print) (sound : forest.isWellFormed = true)
    (unblocked : forest.isUnblocked = true) :
    ComponentTag.tagsFrom html before.length = .ok (forest.tags before.length) := by
  induction forest generalizing before with
  | done words =>
    simp only [isWellFormed, isBetween, Bool.and_eq_true] at sound
    have marked := ComponentTag.marksFrom_of_isUntagged sound.1 atTag_nil before.length
    rw [List.append_nil, ComponentTag.marksFrom] at marked
    apply ComponentTag.tagsFrom_of_none
    rw [ComponentTag.next?, ComponentTag.marks, blockless, whole, List.drop_left, print, marked]
    rfl
  | closed words name attributes rest ih =>
    simp only [isWellFormed, Bool.and_eq_true] at sound
    obtain ⟨⟨⟨between, pascal⟩, attributesSound⟩, restSound⟩ := sound
    have found := ComponentTag.next?_closed blockless whole between pascal attributesSound
    have stop : before.length + words.length + (name.length + attributes.length + 3) =
        (before ++ words ++ openTag name (attributes ++ ['/'])).length := by
      simp only [openTag, List.length_append, List.length_cons, List.length_nil]
      omega
    have later : html = before ++ words ++ openTag name (attributes ++ ['/']) ++ rest.print := by
      rw [whole, print, List.append_assoc, List.append_assoc]
    rw [ComponentTag.tagsFrom_of_some found, tags]
    dsimp only
    rw [stop, ih later restSound unblocked]
    rfl
  | paired words name attributes inner rest _ ih =>
    simp only [isWellFormed, Bool.and_eq_true, Bool.not_eq_true'] at sound
    obtain ⟨⟨⟨⟨⟨between, pascal⟩, attributesSound⟩, opens⟩, innerSound⟩, restSound⟩ := sound
    simp only [isUnblocked, Bool.and_eq_true, Bool.not_eq_true'] at unblocked
    have found := ComponentTag.next?_paired blockless whole between pascal attributesSound opens innerSound
    have stop : before.length + words.length + (name.length + attributes.length + 2) + inner.print.length +
        (name.length + 3) =
        (before ++ words ++ openTag name attributes ++ inner.print ++ (Piece.closing name).print).length := by
      simp only [openTag, Piece.print, List.length_append, List.length_cons, List.length_nil]
      omega
    have later : html =
        before ++ words ++ openTag name attributes ++ inner.print ++ (Piece.closing name).print ++ rest.print := by
      rw [whole, print]
      simp only [List.append_assoc]
    rw [ComponentTag.tagsFrom_of_some found, tags]
    dsimp only
    rw [stop, ih later restSound unblocked.2]
    rfl

/-- Searching again and again from the end of the last tag finds the components at the top of a printed forest, each
where it stands, with its attribute text and the forest in it. -/
theorem tagsFrom_print {forest : Forest} (sound : forest.isWellFormed = true) (unblocked : forest.isUnblocked = true) :
    ComponentTag.tagsFrom forest.print 0 = .ok (forest.tags 0) :=
  tagsFrom_print_append (spans_print sound unblocked) (List.nil_append _).symm sound unblocked

/-- Equal names, names that begin others, and single tags, in each other. -/
def nested : Forest :=
  .paired "a < b " "Card" " x='>'" (.paired "" "Card" "" (.closed "" "CardBox" " y={ z }" (.done "")) (.done "c")) <|
    .closed " > " "Card" "\t" (.done "</p>")

theorem tagsFrom_print_nested :
    nested.print = ("a < b <Card x='>'><Card><CardBox y=\x7b z \x7d/></Card>c</Card> > <Card\t/></p>" : Text) ∧
      ComponentTag.tagsFrom nested.print 0 =
        .ok [⟨6, 57, "Card", false, "x='>'", "<Card><CardBox y=\x7b z \x7d/></Card>c"⟩,
          ⟨60, 68, "Card", true, "", ""⟩] := by
  have read := @tagsFrom_print nested (by decide) (by decide)
  refine ⟨by decide, ?_⟩
  rw [read]
  decide

/-- A pair of tags that is named as a script. -/
def script : Forest := .paired [] "Script" [] (.done []) (.done [])

/-- Such a pair is a block to the search, and no component. -/
theorem tagsFrom_print_script :
    script.isWellFormed = true ∧ script.print = ("<Script></Script>" : Text) ∧
      ComponentTag.tagsFrom script.print 0 = .ok [] ∧
      script.tags 0 = [⟨0, 17, "Script", false, [], []⟩] := by
  have taken : Block.guarded (script.print ++ []) = some ((), []) := by decide
  have segments : Pattern.segments Block.guarded script.print = [.hit script.print ()] := by
    have hit := Pattern.segments_hit (by decide) taken
    rw [List.append_nil, Pattern.segments] at hit
    exact hit
  have spans : Block.spans script.print = [⟨0, 17⟩] := by
    rw [Block.spans, segments]
    rfl
  have found : ComponentTag.next? script.print 0 = .ok none := by
    rw [ComponentTag.next?, ComponentTag.marks, spans]
    rfl
  exact ⟨by decide, by decide, ComponentTag.tagsFrom_of_none found, by decide⟩

end Forest

end ComponentPages
