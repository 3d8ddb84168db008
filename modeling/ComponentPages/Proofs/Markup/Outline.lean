import ComponentPages.Component
import ComponentPages.Proofs.Markup.Library
import ComponentPages.Proofs.Markup.Slot

/-!
Components as they are written under any root, be it an element or another component's tag, and what loading makes
of them: the declaration of the props is taken out, the root is the only one, and the scope attribute becomes its
first.
-/
namespace ComponentPages

/-- The root of a component. It is the tag of another component when its name is one in PascalCase. -/
structure Root where
  name : Text
  mentions : List Mention
  closed : Bool := false
  body : Tree
deriving DecidableEq

namespace Root

def tree (root : Root) : Tree :=
  if isPascalCase root.name then .component root.name root.mentions root.closed root.body .done
  else .element root.name root.mentions root.body .done

/-- The root with one more attribute in front. -/
def mark (root : Root) (mention : Mention) : Root := { root with mentions := mention :: root.mentions }

/-- Whether a root is sound markup of a template and the compiler finds its end. -/
def isSound (root : Root) : Bool :=
  root.tree.isSound .template false && !RootElement.voidNames.contains (Text.lower root.name) &&
    (isPascalCase root.name || !root.closed)

/-- What is written behind the opening tag. -/
def behind (root : Root) : Text := if root.closed then [] else root.body.print ++ (Piece.closing root.name).print

variable {root : Root}

theorem tree_of_isPascalCase (pascal : isPascalCase root.name = true) :
    root.tree = .component root.name root.mentions root.closed root.body .done :=
  if_pos pascal

theorem tree_of_not_isPascalCase (other : ¬isPascalCase root.name = true) :
    root.tree = .element root.name root.mentions root.body .done :=
  if_neg other

theorem tree_mark_of_isPascalCase (pascal : isPascalCase root.name = true) (mention : Mention) :
    (root.mark mention).tree = .component root.name (mention :: root.mentions) root.closed root.body .done :=
  if_pos pascal

theorem tree_mark_of_not_isPascalCase (other : ¬isPascalCase root.name = true) (mention : Mention) :
    (root.mark mention).tree = .element root.name (mention :: root.mentions) root.body .done :=
  if_neg other

theorem parts (sound : root.isSound = true) :
    isTagName root.name = true ∧ (∀ mention ∈ root.mentions, mention.isSound = true) ∧
      ∀ piece ∈ root.body.pieces, piece.isSound = true := by
  simp only [isSound, Bool.and_eq_true] at sound
  obtain ⟨⟨treeSound, -⟩, -⟩ := sound
  by_cases pascal : isPascalCase root.name = true
  · rw [tree_of_isPascalCase pascal] at treeSound
    simp only [Tree.isSound, Tree.isComponentTag, Bool.and_eq_true, List.all_eq_true] at treeSound
    obtain ⟨⟨⟨-, ⟨⟨-, notBlock⟩, mentions⟩, -⟩, body⟩, -⟩ := treeSound
    exact ⟨by simp [isTagName, pascal, notBlock], mentions, Tree.isSound_pieces body⟩
  · rw [tree_of_not_isPascalCase pascal] at treeSound
    simp only [Tree.isSound, Bool.and_eq_true, List.all_eq_true] at treeSound
    obtain ⟨⟨⟨⟨⟨element, notBlock⟩, -⟩, mentions, -⟩, body⟩, -⟩ := treeSound
    exact ⟨by simp [isTagName, element, notBlock], mentions, Tree.isSound_pieces body⟩

theorem pieces_tree (sound : root.isSound = true) :
    root.tree.pieces = ComponentTag.element root.name root.mentions root.closed root.body.pieces := by
  simp only [isSound, Bool.and_eq_true] at sound
  by_cases pascal : isPascalCase root.name = true
  · rw [tree_of_isPascalCase pascal]
    exact List.append_nil _
  · have opened : root.closed = false := by simpa [pascal] using sound.2
    rw [tree_of_not_isPascalCase pascal, opened]
    rfl

theorem mem_components_tree {name : Text} (member : name ∈ root.body.components) : name ∈ root.tree.components := by
  by_cases pascal : isPascalCase root.name = true
  · rw [tree_of_isPascalCase pascal]
    simp [Tree.components, member]
  · rw [tree_of_not_isPascalCase pascal]
    simp [Tree.components, member]

/-- The root with what follows the name of its tag. -/
theorem print_tree (sound : root.isSound = true) :
    root.tree.print = ('<' :: root.name) ++ (printHead root.mentions root.closed ++ '>' :: root.behind) := by
  rw [Tree.print, pieces_tree sound, behind]
  cases root.closed <;> simp [ComponentTag.element, printPieces, Piece.print, Tree.print]

/-- A root can carry one more attribute, on an element a constant one. -/
theorem isSound_mark (sound : root.isSound = true) {mention : Mention} (mentionSound : mention.isSound = true)
    (static : mention.isStatic = true) : (root.mark mention).isSound = true := by
  simp only [isSound, Bool.and_eq_true] at sound ⊢
  refine ⟨⟨?_, sound.1.2⟩, sound.2⟩
  have treeSound := sound.1.1
  by_cases pascal : isPascalCase root.name = true
  · rw [tree_of_isPascalCase pascal] at treeSound
    rw [tree_mark_of_isPascalCase pascal]
    simpa [Tree.isSound, Tree.isComponentTag, mentionSound] using treeSound
  · rw [tree_of_not_isPascalCase pascal] at treeSound
    rw [tree_mark_of_not_isPascalCase pascal]
    simpa [Tree.isSound, mentionSound, static] using treeSound

theorem print_mark {mention : Mention} (sound : (root.mark mention).isSound = true) :
    (root.mark mention).tree.print = ('<' :: root.name) ++
      (mention.print ++ (printHead root.mentions root.closed ++ '>' :: root.behind)) := by
  have head : printHead (mention :: root.mentions) root.closed =
      mention.print ++ printHead root.mentions root.closed := by simp [printHead]
  rw [print_tree sound]
  change ('<' :: root.name) ++ (printHead (mention :: root.mentions) root.closed ++ '>' :: root.behind) = _
  rw [head, List.append_assoc]

theorem trim_print (sound : root.isSound = true) : Text.trim root.tree.print = root.tree.print := by
  obtain ⟨text, ended⟩ : ∃ text, root.tree.print = text ++ ['>'] := by
    rw [print_tree sound, behind]
    cases root.closed with
    | true => exact ⟨('<' :: root.name) ++ printHead root.mentions true, by simp⟩
    | false =>
      exact ⟨('<' :: root.name) ++ (printHead root.mentions false ++ '>' :: (root.body.print ++ '<' :: '/' :: root.name)),
        by simp [Piece.print]⟩
  rw [ended, Text.trim_of_trimRight (Text.trimRight_concat_of_not_blank (by decide) text), ← ended, print_tree sound]
  exact Text.trimLeft_cons_of_not_blank (by decide) _

end Root

namespace RootElement

theorem openingName_print {name : Text} (named : isTagName name = true) (mentions : List Mention) (closed : Bool)
    (rest : Text) :
    openingName (('<' :: name) ++ (printHead mentions closed ++ '>' :: rest)) =
      some (name, printHead mentions closed ++ '>' :: rest) := by
  obtain ⟨c, tail, rfl, letter, parts⟩ := isTagNamePart_of_isTagName named
  obtain ⟨d, more, head, punctuation⟩ := Block.printHead_begins mentions closed rest
  have slug : ∀ e ∈ tail, isSlugPart e = true :=
    fun e member => isSlugPart_of_isTagNamePart (parts e (List.mem_cons_of_mem c member))
  have ends : isSlugPart d = false := by rcases punctuation with rfl | rfl <;> decide
  have opened : Text.after? "<" ('<' :: c :: (tail ++ d :: more)) = some (c :: (tail ++ d :: more)) := rfl
  rw [head, List.cons_append, List.cons_append, openingName, opened, Option.bind_eq_bind, Option.bind_some]
  dsimp only
  obtain ⟨taken, left⟩ := Text.takeWhile_append_cons slug ends more
  rw [if_pos letter, taken, left]

theorem absent_comment {pieces : List Piece} (sound : ∀ piece ∈ pieces, piece.isSound = true) :
    Pattern.Absent comment (printPieces pieces) := by
  apply absent_printPieces _ sound
  · intro before piece rest whole tag
    have pieceSound : piece.isSound = true := sound piece (by rw [whole]; simp)
    cases piece with
    | text words => cases tag
    | placeholder inner => cases tag
    | opening name mentions closed =>
      simp only [Piece.isSound, Bool.and_eq_true] at pieceSound
      obtain ⟨c, tail, rfl, -, parts⟩ := isTagNamePart_of_isTagName pieceSound.1.1
      have other : '!' ≠ c := (ne_of_isTagNamePart (parts c List.mem_cons_self) (by decide)).symm
      simp [comment, Piece.print, Text.after?, other]
    | closing name => simp [comment, Piece.print, Text.after?]
  · intro c text other
    simp [comment, Text.after?, other.symm]

theorem commentSpans_printPieces {pieces : List Piece} (sound : ∀ piece ∈ pieces, piece.isSound = true) :
    commentSpans (printPieces pieces) = [] := by
  rw [commentSpans, Pattern.segments_of_absent (absent_comment sound), List.filterMap_eq_nil_iff]
  rintro ⟨offset, segment⟩ member
  obtain ⟨c, -, rfl⟩ := List.mem_map.1 (Pattern.mem_of_mem_located member)
  rfl

theorem lower_of_isElementName {name : Text} (element : isElementName name = true) : Text.lower name = name := by
  have fixed {c : Char} (lower : c.isLower || c.isDigit || c == '-') : isTagNamePart c = true ∧ c.toLower = c := by
    constructor
    · simp only [Bool.or_eq_true, beq_iff_eq] at lower
      rcases lower with (lower | digit) | rfl
      · simp [isTagNamePart, Char.isAlphanum, Char.isAlpha, lower]
      · simp [isTagNamePart, Char.isAlphanum, digit]
      · rfl
    · refine dif_neg fun upper => ?_
      have low := UInt32.le_iff_toNat_le.1 upper.1
      have high := UInt32.le_iff_toNat_le.1 upper.2
      change 65 ≤ c.val.toNat at low
      change c.val.toNat ≤ 90 at high
      simp only [Char.isLower, Char.isDigit, Bool.or_eq_true, Bool.and_eq_true, decide_eq_true_eq, ge_iff_le,
        UInt32.le_iff_toNat_le, beq_iff_eq] at lower
      rcases lower with (⟨above, -⟩ | ⟨-, below⟩) | rfl
      · change 97 ≤ c.val.toNat at above
        omega
      · change c.val.toNat ≤ 57 at below
        omega
      · exact absurd low (by decide)
  have parts : ∀ c ∈ name, isTagNamePart c = true ∧ c.toLower = c := by
    cases name with
    | nil => simp
    | cons first name =>
      simp only [isElementName, Bool.and_eq_true, List.all_eq_true] at element
      intro c member
      rcases List.mem_cons.1 member with rfl | later
      · exact fixed (by rw [element.1]; rfl)
      · exact fixed (element.2 c later)
  rw [Text.lower_of_isTagNamePart fun c member => (parts c member).1]
  conv => rhs; rw [← List.map_id name]
  exact List.map_congr_left fun c member => (parts c member).2

variable {root : Root}

/-- Nothing follows a root. -/
theorem afterElement?_print (sound : root.isSound = true) : afterElement? root.tree.print = some [] := by
  obtain ⟨named, mentionsSound, bodySound⟩ := Root.parts sound
  have pieces : ∀ piece ∈ root.tree.pieces, piece.isSound = true := by
    simp only [Root.isSound, Bool.and_eq_true] at sound
    exact Tree.isSound_pieces sound.1.1
  have unblocked : Block.spans root.tree.print = [] := Block.spans_printPieces pieces
  have closable : voidNames.contains (Text.lower root.name) = false := by
    simp only [Root.isSound, Bool.and_eq_true] at sound
    simpa using sound.1.2
  let front := '<' :: root.name ++ printHead root.mentions root.closed ++ ['>']
  have whole : root.tree.print = front ++ root.behind := by
    rw [Root.print_tree sound]
    simp [front]
  have opened : openingName root.tree.print =
      some (root.name, printHead root.mentions root.closed ++ '>' :: root.behind) := by
    rw [Root.print_tree sound]
    exact openingName_print named root.mentions root.closed root.behind
  have head := TagHead.read?_printHead mentionsSound root.closed root.behind
  rw [afterElement?, opened]
  simp only [Option.bind_eq_bind, Option.bind_some, head, TagHead.closesItself_printHead mentionsSound, closable,
    Bool.or_false]
  cases closed : root.closed with
  | true =>
    rw [if_pos rfl, Root.behind, closed]
    rfl
  | false =>
    have behind : root.behind = root.body.print ++ (Piece.closing root.name).print := by
      rw [Root.behind, closed]
      rfl
    have start : (front ++ root.behind).length - root.behind.length = front.length := by simp
    have closes := Tag.closeFrom?_balanced (Tree.balanced_pieces root.body) bodySound named (Nat.le_refl 1)
      front.length ((Piece.closing root.name).print ++ [])
    have isName := Tag.isName_of_isTagName named
    rw [Tag.closeFrom?_closing isName isName, if_pos rfl, if_pos (Nat.le_refl 1), List.append_nil] at closes
    have ends : Tag.close? root.tree.print root.name front.length =
        some ⟨front.length + root.body.print.length,
          front.length + root.body.print.length + (Piece.closing root.name).print.length⟩ := by
      rw [Tag.close?, unblocked, whole, List.drop_left, behind]
      exact closes
    have size : (front ++ root.behind).length ≤
        front.length + root.body.print.length + (Piece.closing root.name).print.length := by
      simp only [behind, List.length_append]
      omega
    rw [if_neg Bool.false_ne_true, whole, start, ← whole, ends, Option.bind_some, whole, List.drop_eq_nil_of_le size]

theorem isSingle_print (sound : root.isSound = true) : isSingle root.tree.print = true := by
  have pieces : ∀ piece ∈ root.tree.pieces, piece.isSound = true := by
    simp only [Root.isSound, Bool.and_eq_true] at sound
    exact Tree.isSound_pieces sound.1.1
  have uncommented : Pattern.erase comment root.tree.print = root.tree.print :=
    Pattern.erase_of_absent (absent_comment pieces)
  have unscripted : Pattern.erase (Block.named "script") root.tree.print = root.tree.print :=
    Pattern.erase_of_absent (Block.absent_named (.inl rfl) pieces)
  rw [isSingle, uncommented, unscripted, Root.trim_print sound, afterElement?_print sound]
  rfl

/-- The attribute is added in front of those that are there. -/
theorem addAttribute_print (sound : root.isSound = true) (added : Text) :
    addAttribute root.tree.print added = ('<' :: root.name) ++
      ((⟨added, .constant '"' []⟩ : Mention).print ++ (printHead root.mentions root.closed ++ '>' :: root.behind)) := by
  obtain ⟨named, -, -⟩ := Root.parts sound
  have uncommented : commentSpans root.tree.print = [] := by
    simp only [Root.isSound, Bool.and_eq_true] at sound
    exact commentSpans_printPieces (Tree.isSound_pieces sound.1.1)
  have notScript : (Text.lower root.name == "script".toList) = false := by
    obtain ⟨-, -, -, -, parts⟩ := isTagNamePart_of_isTagName named
    simp only [isTagName, namesBlock, Bool.and_eq_true, Bool.not_or, Bool.not_eq_true'] at named
    rw [Text.lower_of_isTagNamePart parts, named.2.1]
  have segments := Pattern.segments_hit (List.cons_ne_nil '<' root.name)
    (openingName_print named root.mentions root.closed root.behind)
  have stop : nameStop? root.tree.print = some ('<' :: root.name).length := by
    rw [nameStop?, uncommented]
    dsimp only
    rw [Root.print_tree sound, segments, Pattern.located, List.findSome?_cons]
    dsimp only
    rw [covered_nil, notScript, Bool.or_false, if_neg Bool.false_ne_true, Nat.zero_add]
  rw [addAttribute, stop]
  dsimp only
  rw [Root.print_tree sound, List.take_left, List.drop_left]
  simp [Mention.print, Written.print]

end RootElement

namespace Props

theorem listAttribute_of_not_blank {c : Char} (solid : isBlank c = false) (text : Text) :
    listAttribute (c :: text) = none := by
  simp [listAttribute, solid]

theorem listAttribute_begun (text : Text) :
    listAttribute (" props=" ++ text) =
      match Text.trimLeft text with
      | [] => none
      | quote :: rest => if isQuote quote then Text.cut? quote rest else none :=
  rfl

theorem listAttribute_print {quote : Char} (quotes : isQuote quote = true) {declaration : Text}
    (parts : declaration.all isConstantPart = true) (rest : Text) :
    listAttribute ((⟨"props", .constant quote declaration⟩ : Mention).print ++ rest) = some (declaration, rest) := by
  have solid := isBlank_of_isQuote quotes
  have free : ∀ c ∈ declaration, c ≠ quote := by
    intro c member
    rintro rfl
    have part := List.all_eq_true.1 parts c member
    simp [isConstantPart, quotes] at part
  have whole : (⟨"props", .constant quote declaration⟩ : Mention).print ++ rest =
      " props=" ++ quote :: (declaration ++ quote :: rest) := by
    simp [Mention.print, Written.print]
  rw [whole, listAttribute_begun, Text.trimLeft_cons_of_not_blank solid]
  dsimp only
  rw [if_pos quotes, Text.cut?_append free]

theorem read_of_absent {source declarations : Text} {props : Props} {pieces : List Piece}
    (divided : split source = (declarations, printPieces pieces))
    (listed : ((Text.pieces ',' declarations).foldlM addListed []).toOption = some props)
    (sound : ∀ piece ∈ pieces, piece.isSound = true) : read source = .ok (props, printPieces pieces) := by
  have unmarked : Pattern.Absent propMarker (printPieces pieces) := by
    refine absent_doubled ?_ sound
    intro text single
    rw [propMarker, single]
    rfl
  have undrilled : Pattern.Absent drillMarker (printPieces pieces) := by
    refine absent_doubled ?_ sound
    intro text single
    rw [drillMarker, single]
    rfl
  rw [read, divided]
  dsimp only
  rw [eq_ok_of_toOption listed, Pattern.values_of_absent unmarked, Pattern.replace_of_absent unmarked,
    Pattern.replace_of_absent undrilled]
  rfl

end Props

/-- The attribute by which a stylesheet finds a component's root. -/
def scopeMention (name : Text) : Mention := ⟨Component.scopeIdFor name, .constant '"' []⟩

/-- A component as it is written: one root, whose first attribute declares the props. -/
structure Outline where
  name : Text
  quote : Char
  declaration : Text
  props : Props
  root : Root
deriving DecidableEq

namespace Outline

def declared (outline : Outline) : Root :=
  outline.root.mark ⟨"props", .constant outline.quote outline.declaration⟩

def source (outline : Outline) : Text := outline.declared.tree.print

/-- The root without the declaration, on request with the scope attribute. -/
def template (outline : Outline) (addScope : Bool) : Tree :=
  if addScope then (outline.root.mark (scopeMention outline.name)).tree else outline.root.tree

def isSound (outline : Outline) : Bool :=
  isPascalCase outline.name && (isQuote outline.quote && outline.declaration.all isConstantPart) &&
    ((Text.pieces ',' outline.declaration).foldlM Props.addListed []).toOption == some outline.props &&
    outline.root.isSound

/-- What loading makes of an outline. -/
def component (outline : Outline) (addScope : Bool) : Component where
  name := outline.name
  template := (outline.template addScope).print
  props := outline.props
  scopeId := Component.scopeIdFor outline.name
  css := []

variable {outline : Outline}

theorem isSound_declared (sound : outline.isSound = true) : outline.declared.isSound = true := by
  simp only [isSound, Bool.and_eq_true] at sound
  obtain ⟨⟨⟨-, declared⟩, -⟩, root⟩ := sound
  refine Root.isSound_mark root ?_ ?_
  · rw [Mention.isSound, Written.isSound, declared.1, declared.2]
    change ("props".toList != [] && "props".toList.all isMentionPart && true) = true
    decide
  · rw [Mention.isStatic]
    change (true && ("props".toList != "fetch".toList)) = true
    decide

theorem isSound_marked (sound : outline.isSound = true) :
    (outline.root.mark (scopeMention outline.name)).isSound = true := by
  simp only [isSound, Bool.and_eq_true] at sound
  obtain ⟨⟨⟨pascal, -⟩, -⟩, root⟩ := sound
  obtain ⟨scopeSound, scopeStatic⟩ := Definition.isSound_scopeMention pascal
  exact Root.isSound_mark root scopeSound scopeStatic

theorem isSound_template (sound : outline.isSound = true) (addScope : Bool) :
    (outline.template addScope).isSound .template false = true := by
  cases addScope with
  | true =>
    have marked := isSound_marked sound
    simp only [Root.isSound, Bool.and_eq_true] at marked
    exact marked.1.1
  | false =>
    simp only [isSound, Root.isSound, Bool.and_eq_true] at sound
    exact sound.2.1.1

theorem components_template (outline : Outline) (addScope : Bool) :
    (outline.template addScope).components = outline.root.tree.components := by
  cases addScope with
  | false => rfl
  | true =>
    change (outline.root.mark (scopeMention outline.name)).tree.components = _
    by_cases pascal : isPascalCase outline.root.name = true
    · rw [Root.tree_of_isPascalCase pascal, Root.tree_mark_of_isPascalCase pascal]
      rfl
    · rw [Root.tree_of_not_isPascalCase pascal, Root.tree_mark_of_not_isPascalCase pascal]
      rfl

theorem split_source (sound : outline.isSound = true) :
    Props.split outline.source = (outline.declaration, outline.root.tree.print) := by
  have written : outline.source = _ := Root.print_mark (isSound_declared sound)
  simp only [isSound, Bool.and_eq_true] at sound
  obtain ⟨⟨⟨-, declared⟩, -⟩, root⟩ := sound
  obtain ⟨named, -, -⟩ := Root.parts root
  obtain ⟨-, -, -, -, parts⟩ := isTagNamePart_of_isTagName named
  let mention : Mention := ⟨"props", .constant outline.quote outline.declaration⟩
  let rest := printHead outline.root.mentions outline.root.closed ++ '>' :: outline.root.behind
  change outline.source = ('<' :: outline.root.name) ++ (mention.print ++ rest) at written
  have passes : Pattern.Passes Props.listAttribute ('<' :: outline.root.name) (mention.print ++ rest) := by
    refine Pattern.passes_of_begins _ fun c member => Props.listAttribute_of_not_blank ?_
    rcases List.mem_cons.1 member with rfl | inName
    · decide
    · exact isBlank_of_isTagNamePart (parts c inName)
  have found : Pattern.seek? Props.listAttribute (mention.print ++ rest) = some ([], outline.declaration, rest) := by
    have reads := Props.listAttribute_print declared.1 declared.2 rest
    have begins : mention.print ++ rest =
        ' ' :: ("props=" ++ outline.quote :: (outline.declaration ++ outline.quote :: rest)) := by
      simp [Mention.print, Written.print, mention]
    change Props.listAttribute (mention.print ++ rest) = _ at reads
    rw [begins] at reads ⊢
    rw [Pattern.seek?, reads]
  rw [Props.split, written, Pattern.seek?_append passes, found, Root.print_tree root]
  simp [rest]

/-- An outline loads. -/
theorem load_source (sound : outline.isSound = true) (path : Option Text) (addScope : Bool) :
    Component.load outline.name outline.source path addScope = .ok { outline.component addScope with path } := by
  have declaredSound := isSound_declared sound
  have sourcePieces : ∀ piece ∈ outline.declared.tree.pieces, piece.isSound = true := by
    simp only [Root.isSound, Bool.and_eq_true] at declaredSound
    exact Tree.isSound_pieces declaredSound.1.1
  have extracted : Stylesheet.extract outline.source (Component.scopeIdFor outline.name) = (outline.source, []) := by
    have unstyled : Pattern.Absent (Block.named "style") outline.source := Block.absent_named (.inr rfl) sourcePieces
    rw [Stylesheet.extract, Pattern.erase_of_absent unstyled, Pattern.values_of_absent unstyled, source,
      Root.trim_print declaredSound]
    rfl
  have divided := split_source sound
  have templatePieces : ∀ piece ∈ outline.root.tree.pieces, piece.isSound = true :=
    Tree.isSound_pieces (isSound_template sound false)
  have marked := Root.print_mark (isSound_marked sound)
  simp only [isSound, Bool.and_eq_true] at sound
  obtain ⟨⟨⟨pascal, -⟩, listed⟩, root⟩ := sound
  have read : Props.read outline.source = .ok (outline.props, outline.root.tree.print) :=
    Props.read_of_absent divided (beq_iff_eq.1 listed) templatePieces
  have normal : Slot.normalize outline.root.tree.print = outline.root.tree.print :=
    Slot.normalize_printPieces templatePieces
  have attributed : RootElement.addAttribute outline.root.tree.print (Component.scopeIdFor outline.name) =
      (outline.template true).print := by
    rw [RootElement.addAttribute_print root]
    exact marked.symm
  simp only [Component.load, pascal, extracted, read, Bool.not_true, Bool.false_eq_true, if_false, bind,
    Except.bind, normal, RootElement.isSingle_print root, attributed]
  cases addScope <;> rfl

end Outline

namespace Registry

/-- The registry that sources load into, one after another. -/
def ofSources (sources : List (Text × Text)) (addScope : Bool) : Except Failure Registry :=
  sources.foldlM (fun registry (name, source) => Component.load name source none addScope >>= registry.add) {}

theorem add_of_fresh {registry : Registry} {component : Component} (fresh : component.name ∉ registry.names) :
    registry.add component = .ok ⟨registry.components ++ [component]⟩ := by
  have unknown : (registry.find? component.name).isSome = false := by
    rw [find?, Option.isSome_eq_false_iff, Option.isNone_iff_eq_none, List.find?_eq_none]
    intro other member same
    exact fresh (of_decide_eq_true same ▸ List.mem_map_of_mem member)
  rw [add, unknown, if_neg Bool.false_ne_true]

/-- Sources under distinct names load whole if each of them loads. -/
theorem ofSources_map {ι : Type} {addScope : Bool} {name source : ι → Text} {component : ι → Component} (items : List ι)
    (loads : ∀ item ∈ items, Component.load (name item) (source item) none addScope = .ok (component item) ∧
      (component item).name = name item)
    (distinct : (items.map name).Nodup) :
    ofSources (items.map fun item => (name item, source item)) addScope = .ok ⟨items.map component⟩ := by
  have continues (items : List ι)
      (loads : ∀ item ∈ items, Component.load (name item) (source item) none addScope = .ok (component item) ∧
        (component item).name = name item)
      (registry : Registry) (distinct : (registry.names ++ items.map name).Nodup) :
      items.foldlM (fun registry item => Component.load (name item) (source item) none addScope >>= registry.add) registry =
        .ok ⟨registry.components ++ items.map component⟩ := by
    induction items generalizing registry with
    | nil => simp [pure, Except.pure]
    | cons item items ih =>
      obtain ⟨loaded, named⟩ := loads item List.mem_cons_self
      have fresh : (component item).name ∉ registry.names := by
        rw [named]
        exact fun known => (List.nodup_append.1 distinct).2.2 _ known _ List.mem_cons_self rfl
      have later := ih (fun other member => loads other (List.mem_cons_of_mem item member))
        ⟨registry.components ++ [component item]⟩ (by simpa [names, named] using distinct)
      rw [List.foldlM_cons, loaded]
      change (registry.add (component item) >>= _) = _
      rw [add_of_fresh fresh]
      change List.foldlM _ _ _ = _
      rw [later]
      simp
  rw [ofSources, List.foldlM_map]
  exact continues items loads {} (by simpa [names] using distinct)

theorem find?_of_mem {registry : Registry} (distinct : registry.names.Nodup) {component : Component}
    (member : component ∈ registry.components) : registry.find? component.name = some component := by
  obtain ⟨components⟩ := registry
  change component ∈ components at member
  change (components.map Component.name).Nodup at distinct
  change components.find? _ = _
  induction components with
  | nil => cases member
  | cons first components ih =>
    rw [List.map_cons, List.nodup_cons] at distinct
    rcases List.mem_cons.1 member with rfl | later
    · exact List.find?_cons_of_pos (decide_eq_true rfl)
    · have other : first.name ≠ component.name :=
        fun same => distinct.1 (same ▸ List.mem_map_of_mem later)
      rw [List.find?_cons_of_neg (by simpa using other)]
      exact ih later distinct.2

end Registry

/-- Components as they are written, under distinct names. -/
structure Collection where
  outlines : List Outline
  sound : ∀ outline ∈ outlines, outline.isSound = true
  distinct : (outlines.map Outline.name).Nodup

namespace Collection

def sources (collection : Collection) : List (Text × Text) :=
  collection.outlines.map fun outline => (outline.name, outline.source)

def find? (collection : Collection) (name : Text) : Option Outline :=
  collection.outlines.find? fun outline => outline.name = name

theorem isSound_of_find? {collection : Collection} {name : Text} {outline : Outline}
    (found : collection.find? name = some outline) : outline.isSound = true :=
  collection.sound outline (List.mem_of_find?_eq_some found)

/-- A collection loads whole. -/
theorem ofSources_eq_ok (collection : Collection) (addScope : Bool) :
    Registry.ofSources collection.sources addScope = .ok ⟨collection.outlines.map (Outline.component · addScope)⟩ := by
  refine Registry.ofSources_map collection.outlines (fun outline member => ?_) collection.distinct
  exact ⟨Outline.load_source (collection.sound outline member) none addScope, rfl⟩

theorem find?_ofSources (collection : Collection) (addScope : Bool) (name : Text) :
    Registry.find? ⟨collection.outlines.map (Outline.component · addScope)⟩ name =
      (collection.find? name).map (Outline.component · addScope) := by
  rw [Registry.find?, List.find?_map]
  rfl

end Collection

end ComponentPages
