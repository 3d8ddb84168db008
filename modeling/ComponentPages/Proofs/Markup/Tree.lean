import ComponentPages.Proofs.Markup.Quiet

/-!
Markup as a tree. A tree is the first node of a sequence with the rest of the sequence; the children of a
component's tag are fills, and a template has slots for them. Printing a tree gives balanced pieces, and sound
ones when the tree is.
-/
namespace ComponentPages

inductive Tree where
  | done
  | text (words : Text) (rest : Tree)
  | placeholder (inner : Text) (rest : Tree)
  | element (name : Text) (mentions : List Mention) (body rest : Tree)
  | component (name : Text) (mentions : List Mention) (closed : Bool) (fills rest : Tree)
  | fill (name : Text) (body rest : Tree)
  | slot (name : Text) (rest : Tree)
deriving DecidableEq

/-- What a tree may hold beside text and elements. -/
structure Vocabulary where
  placeholders : Bool := false
  components : Bool := false
  slots : Bool := false

namespace Vocabulary

def plain : Vocabulary := {}

def page : Vocabulary := { placeholders := true, components := true }

def template : Vocabulary := { placeholders := true, components := true, slots := true }

end Vocabulary

/-- The attribute that names a slot. -/
def slotMention (name : Text) : Mention := ⟨"name", .constant '\'' name⟩

def isSlotName (name : Text) : Bool := name != [] && name.all fun c => isSlugPart c && isConstantPart c

namespace Tree

def pieces : Tree → List Piece
  | done => []
  | text words rest => .text words :: rest.pieces
  | placeholder inner rest => .placeholder inner :: rest.pieces
  | element name mentions body rest =>
    .opening name mentions false :: body.pieces ++ .closing name :: rest.pieces
  | component name mentions closed fills rest =>
    ComponentTag.element name mentions closed fills.pieces ++ rest.pieces
  | fill name body rest =>
    .opening "slot" [slotMention name] false :: body.pieces ++ .closing "slot" :: rest.pieces
  | slot name rest => .opening "slot" [slotMention name] true :: rest.pieces

def print (tree : Tree) : Text := printPieces tree.pieces

/-- Puts one sequence behind another. -/
def append : Tree → Tree → Tree
  | done, next => next
  | text words rest, next => text words (rest.append next)
  | placeholder inner rest, next => placeholder inner (rest.append next)
  | element name mentions body rest, next => element name mentions body (rest.append next)
  | component name mentions closed fills rest, next => component name mentions closed fills (rest.append next)
  | fill name body rest, next => fill name body (rest.append next)
  | slot name rest, next => slot name (rest.append next)

/-- A component's tag that closes itself has no fills. -/
def isComponentTag (name : Text) (mentions : List Mention) (closed : Bool) (fills : Tree) : Bool :=
  (isPascalCase name && !namesBlock name) && mentions.all Mention.isSound && (!closed || fills = done)

/-- Whether a tree is written with a vocabulary. Fills stand directly in the tag of a component and nothing else
does; an element is none of the blocks that passes leave alone and no slot. -/
def isSound (vocabulary : Vocabulary) : (inTag : Bool) → Tree → Bool
  | _, done => true
  | false, text words rest => words.all isTextPart && rest.isSound vocabulary false
  | false, placeholder inner rest =>
    vocabulary.placeholders && (inner != [] && inner.all isExpressionPart) && rest.isSound vocabulary false
  | false, element name mentions body rest =>
    (isElementName name && !namesBlock name && name != "slot") &&
      (mentions.all Mention.isSound && mentions.all Mention.isStatic) && body.isSound vocabulary false &&
      rest.isSound vocabulary false
  | false, component name mentions closed fills rest =>
    vocabulary.components && isComponentTag name mentions closed fills && fills.isSound vocabulary true &&
      rest.isSound vocabulary false
  | true, fill name body rest =>
    isSlotName name && body.isSound vocabulary false && rest.isSound vocabulary true
  | false, slot name rest => vocabulary.slots && isSlotName name && rest.isSound vocabulary false
  | _, _ => false

/-- The fills among the children of a component's tag. -/
def fills : Tree → List (Text × Tree)
  | fill name body rest => (name, body) :: rest.fills
  | _ => []

/-- The names of the components that a tree holds. -/
def components : Tree → List Text
  | done => []
  | text _ rest | placeholder _ rest | slot _ rest => rest.components
  | element _ _ body rest | fill _ body rest => body.components ++ rest.components
  | component name _ _ fills rest => name :: fills.components ++ rest.components

theorem print_text (words : Text) (rest : Tree) : (text words rest).print = words ++ rest.print :=
  printPieces_cons (.text words) rest.pieces

theorem print_fill (name : Text) (body rest : Tree) :
    (fill name body rest).print = (Piece.opening "slot" [slotMention name] false).print ++
      (body.print ++ ((Piece.closing "slot").print ++ rest.print)) := by
  simp [print, pieces, printPieces]

theorem pieces_append (tree next : Tree) : (tree.append next).pieces = tree.pieces ++ next.pieces := by
  induction tree with
  | done => rfl
  | text words rest ih => rw [append, pieces, ih, pieces, List.cons_append]
  | placeholder inner rest ih => rw [append, pieces, ih, pieces, List.cons_append]
  | element name mentions body rest _ ih => simp only [append, pieces, ih, List.append_assoc, List.cons_append]
  | component name mentions closed fills rest _ ih => rw [append, pieces, ih, pieces, List.append_assoc]
  | fill name body rest _ ih => simp only [append, pieces, ih, List.append_assoc, List.cons_append]
  | slot name rest ih => rw [append, pieces, ih, pieces, List.cons_append]

theorem print_append (tree next : Tree) : (tree.append next).print = tree.print ++ next.print := by
  rw [print, pieces_append, printPieces_append, print, print]

theorem isSound_slotMention {name : Text} (named : isSlotName name = true) : (slotMention name).isSound = true := by
  simp only [isSlotName, Bool.and_eq_true, bne_iff_ne, List.all_eq_true] at named
  have constant : name.all isConstantPart = true := List.all_eq_true.2 fun c member => (named.2 c member).2
  have word : ("name".toList != [] && "name".toList.all isMentionPart) = true := by decide
  rw [Mention.isSound]
  change ("name".toList != [] && "name".toList.all isMentionPart && (isQuote '\'' && name.all isConstantPart)) = true
  rw [word, constant]
  rfl

theorem isSound_slotOpening {name : Text} (named : isSlotName name = true) (closed : Bool) :
    (Piece.opening "slot" [slotMention name] closed).isSound = true := by
  have tag : isTagName "slot".toList = true := by decide
  have static : (slotMention name).isStatic = true := by
    change (true && ("name".toList != "fetch".toList)) = true
    decide
  change (isTagName "slot".toList && [slotMention name].all Mention.isSound &&
    (isPascalCase "slot".toList || [slotMention name].all Mention.isStatic)) = true
  simp only [tag, List.all_cons, List.all_nil, isSound_slotMention named, static, Bool.and_true, Bool.or_true]

theorem isSound_append {vocabulary : Vocabulary} {inTag : Bool} {tree next : Tree} :
    (tree.append next).isSound vocabulary inTag = (tree.isSound vocabulary inTag && next.isSound vocabulary inTag) := by
  induction tree with
  | done => simp [append, isSound]
  | text words rest ih => cases inTag <;> simp [append, isSound, ih, Bool.and_assoc]
  | placeholder inner rest ih => cases inTag <;> simp [append, isSound, ih, Bool.and_assoc]
  | element name mentions body rest _ ih => cases inTag <;> simp [append, isSound, ih, Bool.and_assoc]
  | component name mentions closed fills rest _ ih => cases inTag <;> simp [append, isSound, ih, Bool.and_assoc]
  | fill name body rest _ ih => cases inTag <;> simp [append, isSound, ih, Bool.and_assoc]
  | slot name rest ih => cases inTag <;> simp [append, isSound, ih, Bool.and_assoc]

end Tree

/-- The tag of a slot, or of a fill, has one attribute and that names the slot. -/
def Piece.Slotted (piece : Piece) : Prop :=
  ∀ mentions closed, piece = .opening "slot" mentions closed →
    ∃ name, isSlotName name = true ∧ mentions = [slotMention name]

namespace Tree

theorem sound_pieces {vocabulary : Vocabulary} {inTag : Bool} {tree : Tree}
    (sound : tree.isSound vocabulary inTag = true) : ∀ piece ∈ tree.pieces, piece.isSound = true ∧ piece.Slotted := by
  have unslotted {piece : Piece} (other : ∀ mentions closed, piece ≠ .opening "slot" mentions closed) : piece.Slotted :=
    fun mentions closed same => absurd same (other mentions closed)
  have named {name other : Text} {mentions others : List Mention} {closed last : Bool} (different : name ≠ other) :
      Piece.opening name mentions closed ≠ .opening other others last :=
    fun same => different (Piece.opening.inj same).1
  have slotted {name : Text} (slot : isSlotName name = true) (closed : Bool) :
      (Piece.opening "slot" [slotMention name] closed).isSound = true ∧
        (Piece.opening "slot" [slotMention name] closed).Slotted :=
    ⟨isSound_slotOpening slot closed, fun _ _ same => ⟨name, slot, (Piece.opening.inj same).2.1.symm⟩⟩
  induction tree generalizing inTag with
  | done => simp [pieces]
  | text words rest ih =>
    cases inTag with
    | true => cases sound
    | false =>
      simp only [isSound, Bool.and_eq_true] at sound
      intro piece member
      rcases List.mem_cons.1 member with rfl | later
      · exact ⟨sound.1, unslotted (by simp)⟩
      · exact ih sound.2 piece later
  | placeholder inner rest ih =>
    cases inTag with
    | true => cases sound
    | false =>
      simp only [isSound, Bool.and_eq_true] at sound
      intro piece member
      rcases List.mem_cons.1 member with rfl | later
      · exact ⟨by simp [Piece.isSound, sound.1.2], unslotted (by simp)⟩
      · exact ih sound.2 piece later
  | element name mentions body rest ihBody ih =>
    cases inTag with
    | true => cases sound
    | false =>
      simp only [isSound, Bool.and_eq_true, bne_iff_ne] at sound
      obtain ⟨⟨⟨⟨⟨element, notBlock⟩, notSlot⟩, mentionsSound, static⟩, bodySound⟩, restSound⟩ := sound
      have tagName : isTagName name = true := by simp [isTagName, element, notBlock]
      intro piece member
      simp only [pieces, List.cons_append, List.mem_cons, List.mem_append] at member
      rcases member with rfl | inBody | rfl | later
      · exact ⟨by simp [Piece.isSound, tagName, mentionsSound, static], unslotted fun _ _ => named notSlot⟩
      · exact ihBody bodySound piece inBody
      · exact ⟨tagName, unslotted (by simp)⟩
      · exact ih restSound piece later
  | component name mentions closed fills rest ihFills ih =>
    cases inTag with
    | true => cases sound
    | false =>
      simp only [isSound, isComponentTag, Bool.and_eq_true] at sound
      obtain ⟨⟨⟨-, ⟨⟨pascal, notBlock⟩, mentionsSound⟩, -⟩, fillsSound⟩, restSound⟩ := sound
      have tagName : isTagName name = true := by simp [isTagName, pascal, notBlock]
      have notSlot : name ≠ "slot".toList := by
        rintro rfl
        exact absurd pascal (by decide)
      intro piece member
      rcases List.mem_append.1 member with inTag | later
      · rcases List.mem_cons.1 inTag with rfl | inside
        · exact ⟨by simp [Piece.isSound, tagName, mentionsSound, pascal], unslotted fun _ _ => named notSlot⟩
        · cases closed with
          | true => cases inside
          | false =>
            rcases List.mem_append.1 inside with inFills | last
            · exact ihFills fillsSound piece inFills
            · rw [List.mem_singleton.1 last]
              exact ⟨tagName, unslotted (by simp)⟩
      · exact ih restSound piece later
  | fill name body rest ihBody ih =>
    cases inTag with
    | false => cases sound
    | true =>
      simp only [isSound, Bool.and_eq_true] at sound
      intro piece member
      simp only [pieces, List.cons_append, List.mem_cons, List.mem_append] at member
      rcases member with rfl | inBody | rfl | later
      · exact slotted sound.1.1 false
      · exact ihBody sound.1.2 piece inBody
      · exact ⟨by decide, unslotted (by simp)⟩
      · exact ih sound.2 piece later
  | slot name rest ih =>
    cases inTag with
    | true => cases sound
    | false =>
      simp only [isSound, Bool.and_eq_true] at sound
      intro piece member
      rcases List.mem_cons.1 member with rfl | later
      · exact slotted sound.1.2 true
      · exact ih sound.2 piece later

theorem isSound_pieces {vocabulary : Vocabulary} {inTag : Bool} {tree : Tree}
    (sound : tree.isSound vocabulary inTag = true) : ∀ piece ∈ tree.pieces, piece.isSound = true :=
  fun piece member => (sound_pieces sound piece member).1

theorem balanced_pieces (tree : Tree) : Tag.Balanced tree.pieces := by
  have around {name : Text} {mentions : List Mention} {body rest : List Piece} (inner : Tag.Balanced body)
      (later : Tag.Balanced rest) : Tag.Balanced (.opening name mentions false :: body ++ .closing name :: rest) := by
    have whole : Piece.opening name mentions false :: body ++ .closing name :: rest =
        (.opening name mentions false :: body ++ [.closing name]) ++ rest := by simp
    rw [whole]
    exact .append (.element inner) later
  have leaf {piece : Piece} (leaf : piece.isTag = false) {rest : List Piece} (later : Tag.Balanced rest) :
      Tag.Balanced (piece :: rest) := .append (.leaf leaf) later
  induction tree with
  | done => exact .nil
  | text words rest ih => exact leaf rfl ih
  | placeholder inner rest ih => exact leaf rfl ih
  | element name mentions body rest ihBody ih => exact around ihBody ih
  | component name mentions closed fills rest ihFills ih =>
    cases closed with
    | true => exact .append .closed ih
    | false => exact .append (.element ihFills) ih
  | fill name body rest ihBody ih => exact around ihBody ih
  | slot name rest ih => exact .append .closed ih

theorem append_done (tree : Tree) : tree.append done = tree := by
  induction tree with
  | done => rfl
  | text words rest ih => rw [append, ih]
  | placeholder inner rest ih => rw [append, ih]
  | element name mentions body rest _ ih => rw [append, ih]
  | component name mentions closed fills rest _ ih => rw [append, ih]
  | fill name body rest _ ih => rw [append, ih]
  | slot name rest ih => rw [append, ih]

theorem append_assoc (first second third : Tree) :
    (first.append second).append third = first.append (second.append third) := by
  induction first with
  | done => rfl
  | text words rest ih => rw [append, append, append, ih]
  | placeholder inner rest ih => rw [append, append, append, ih]
  | element name mentions body rest _ ih => rw [append, append, append, ih]
  | component name mentions closed fills rest _ ih => rw [append, append, append, ih]
  | fill name body rest _ ih => rw [append, append, append, ih]
  | slot name rest ih => rw [append, append, append, ih]

end Tree

/-- What takes the place of placeholders, of components whose fills have been replaced already, and of slots. -/
structure Replacement where
  placeholder (inner : Text) : Option Tree
  component (name : Text) (mentions : List Mention) (closed : Bool) (fills : Tree) : Option Tree
  slot (name : Text) : Option Tree

namespace Tree

def replace (new : Replacement) : Tree → Option Tree
  | done => some done
  | text words rest => do
    let rest ← rest.replace new
    some (text words rest)
  | placeholder inner rest => do
    let first ← new.placeholder inner
    let rest ← rest.replace new
    some (first.append rest)
  | element name mentions body rest => do
    let body ← body.replace new
    let rest ← rest.replace new
    some (element name mentions body rest)
  | component name mentions closed fills rest => do
    let fills ← fills.replace new
    let first ← new.component name mentions closed fills
    let rest ← rest.replace new
    some (first.append rest)
  | fill name body rest => do
    let body ← body.replace new
    let rest ← rest.replace new
    some (fill name body rest)
  | slot name rest => do
    let first ← new.slot name
    let rest ← rest.replace new
    some (first.append rest)

/-- In text and elements there is nothing to replace. -/
theorem replace_of_plain {inTag : Bool} {tree : Tree} (plain : tree.isSound .plain inTag = true) (new : Replacement) :
    tree.replace new = some tree := by
  induction tree generalizing inTag with
  | done => rfl
  | text words rest ih =>
    cases inTag with
    | true => cases plain
    | false =>
      simp only [isSound, Bool.and_eq_true] at plain
      rw [replace, ih plain.2]
      rfl
  | placeholder | component | slot => cases inTag <;> simp [isSound, Vocabulary.plain] at plain
  | element name mentions body rest ihBody ih =>
    cases inTag with
    | true => cases plain
    | false =>
      simp only [isSound, Bool.and_eq_true] at plain
      rw [replace, ihBody plain.1.2, ih plain.2]
      rfl
  | fill name body rest ihBody ih =>
    cases inTag with
    | false => cases plain
    | true =>
      simp only [isSound, Bool.and_eq_true] at plain
      rw [replace, ihBody plain.1.2, ih plain.2]
      rfl

theorem replace_append (tree next : Tree) (new : Replacement) :
    (tree.append next).replace new = (do
      let first ← tree.replace new
      let second ← next.replace new
      some (first.append second)) := by
  induction tree with
  | done => cases later : next.replace new <;> simp [append, replace, later]
  | text words rest ih =>
    rw [append, replace, replace, ih]
    simp [append, Option.bind_assoc]
  | placeholder inner rest ih =>
    rw [append, replace, replace, ih]
    simp [append_assoc, Option.bind_assoc]
  | element name mentions body rest _ ih =>
    rw [append, replace, replace, ih]
    simp [append, Option.bind_assoc]
  | component name mentions closed fills rest _ ih =>
    rw [append, replace, replace, ih]
    simp [append_assoc, Option.bind_assoc]
  | fill name body rest _ ih =>
    rw [append, replace, replace, ih]
    simp [append, Option.bind_assoc]
  | slot name rest ih =>
    rw [append, replace, replace, ih]
    simp [append_assoc, Option.bind_assoc]

/-- Two replacements one after the other are a single one. -/
theorem replace_replace {first second both : Replacement}
    (placeholders : ∀ inner, (first.placeholder inner).bind (replace second) = both.placeholder inner)
    (components : ∀ name mentions closed fills, (first.component name mentions closed fills).bind (replace second) =
      (fills.replace second).bind (both.component name mentions closed))
    (slots : ∀ name, (first.slot name).bind (replace second) = both.slot name) (tree : Tree) :
    (tree.replace first).bind (replace second) = tree.replace both := by
  have around {new : Option Tree} {rest : Tree} (ih : (rest.replace first).bind (replace second) = rest.replace both) :
      (do
        let begun ← new
        let rest ← rest.replace first
        some (begun.append rest)).bind (replace second) = (do
        let begun ← new.bind (replace second)
        let rest ← rest.replace both
        some (begun.append rest)) := by
    rw [← ih]
    cases new with
    | none => rfl
    | some begun =>
      cases rest.replace first with
      | none => cases made : begun.replace second <;> simp [made]
      | some rest => simp [replace_append]
  have nested {node : Tree → Tree → Tree} {body rest : Tree}
      (replaced : ∀ body rest, (node body rest).replace second = (do
        let body ← body.replace second
        let rest ← rest.replace second
        some (node body rest)))
      (ihBody : (body.replace first).bind (replace second) = body.replace both)
      (ih : (rest.replace first).bind (replace second) = rest.replace both) :
      (do
        let body ← body.replace first
        let rest ← rest.replace first
        some (node body rest)).bind (replace second) = (do
        let body ← body.replace both
        let rest ← rest.replace both
        some (node body rest)) := by
    rw [← ih, ← ihBody]
    cases body.replace first with
    | none => rfl
    | some body =>
      cases rest.replace first with
      | none => cases made : body.replace second <;> simp [made]
      | some rest => exact replaced body rest
  induction tree with
  | done => rfl
  | text words rest ih =>
    rw [replace, replace, ← ih]
    cases rest.replace first <;> rfl
  | placeholder inner rest ih => rw [replace, replace, around ih, placeholders]
  | element name mentions body rest ihBody ih =>
    exact @nested (element name mentions) body rest (fun _ _ => rfl) ihBody ih
  | component name mentions closed fills rest ihFills ih =>
    rw [replace, replace, ← ihFills]
    cases fills.replace first with
    | none => rfl
    | some fills =>
      have begun := @around (first.component name mentions closed fills) rest ih
      rw [components] at begun
      exact begun.trans (Option.bind_assoc ..)
  | fill name body rest ihBody ih => exact @nested (fill name) body rest (fun _ _ => rfl) ihBody ih
  | slot name rest ih => rw [replace, replace, around ih, slots]

/-- A replacement by sound trees is sound. -/
theorem isSound_replace {new : Replacement} {old vocabulary : Vocabulary}
    (placeholders : ∀ inner tree, old.placeholders = true → (inner != [] && inner.all isExpressionPart) = true →
      new.placeholder inner = some tree → tree.isSound vocabulary false = true)
    (components : ∀ name mentions closed fills tree, old.components = true →
      isComponentTag name mentions closed fills = true → fills.isSound vocabulary true = true →
      new.component name mentions closed fills = some tree → tree.isSound vocabulary false = true)
    (slots : ∀ name tree, old.slots = true → isSlotName name = true → new.slot name = some tree →
      tree.isSound vocabulary false = true)
    {inTag : Bool} {tree result : Tree} (sound : tree.isSound old inTag = true)
    (replaced : tree.replace new = some result) : result.isSound vocabulary inTag = true := by
  induction tree generalizing inTag result with
  | done =>
    cases replaced
    cases inTag <;> rfl
  | text words rest ih =>
    cases inTag with
    | true => cases sound
    | false =>
      simp only [isSound, Bool.and_eq_true] at sound
      simp only [replace, Option.bind_eq_bind, Option.bind_eq_some_iff, Option.some.injEq] at replaced
      obtain ⟨later, restReplaced, rfl⟩ := replaced
      rw [isSound, sound.1, ih sound.2 restReplaced]
      rfl
  | placeholder inner rest ih =>
    cases inTag with
    | true => cases sound
    | false =>
      simp only [isSound, Bool.and_eq_true] at sound
      simp only [replace, Option.bind_eq_bind, Option.bind_eq_some_iff, Option.some.injEq] at replaced
      obtain ⟨first, replacedHere, later, restReplaced, rfl⟩ := replaced
      have here := placeholders inner first sound.1.1 (Bool.and_eq_true_iff.2 sound.1.2) replacedHere
      rw [isSound_append, here, ih sound.2 restReplaced]
      rfl
  | element name mentions body rest ihBody ih =>
    cases inTag with
    | true => cases sound
    | false =>
      simp only [isSound, Bool.and_eq_true] at sound
      simp only [replace, Option.bind_eq_bind, Option.bind_eq_some_iff, Option.some.injEq] at replaced
      obtain ⟨inner, bodyReplaced, later, restReplaced, rfl⟩ := replaced
      simp only [isSound, ihBody sound.1.2 bodyReplaced, ih sound.2 restReplaced, Bool.and_eq_true, and_true]
      exact sound.1.1
  | component name mentions closed fills rest ihFills ih =>
    cases inTag with
    | true => cases sound
    | false =>
      simp only [isSound, Bool.and_eq_true] at sound
      simp only [replace, Option.bind_eq_bind, Option.bind_eq_some_iff, Option.some.injEq] at replaced
      obtain ⟨filled, fillsReplaced, first, replacedHere, later, restReplaced, rfl⟩ := replaced
      obtain ⟨⟨⟨permitted, tagged⟩, fillsSound⟩, restSound⟩ := sound
      have stillTagged : isComponentTag name mentions closed filled = true := by
        simp only [isComponentTag, Bool.and_eq_true, Bool.or_eq_true, decide_eq_true_eq] at tagged ⊢
        refine ⟨tagged.1, tagged.2.imp_right ?_⟩
        rintro rfl
        exact (Option.some.inj fillsReplaced).symm
      have here := components name mentions closed filled first permitted stillTagged
        (ihFills fillsSound fillsReplaced) replacedHere
      rw [isSound_append, here, ih restSound restReplaced]
      rfl
  | fill name body rest ihBody ih =>
    cases inTag with
    | false => cases sound
    | true =>
      simp only [isSound, Bool.and_eq_true] at sound
      simp only [replace, Option.bind_eq_bind, Option.bind_eq_some_iff, Option.some.injEq] at replaced
      obtain ⟨inner, bodyReplaced, later, restReplaced, rfl⟩ := replaced
      rw [isSound, sound.1.1, ihBody sound.1.2 bodyReplaced, ih sound.2 restReplaced]
      rfl
  | slot name rest ih =>
    cases inTag with
    | true => cases sound
    | false =>
      simp only [isSound, Bool.and_eq_true] at sound
      simp only [replace, Option.bind_eq_bind, Option.bind_eq_some_iff, Option.some.injEq] at replaced
      obtain ⟨first, replacedHere, later, restReplaced, rfl⟩ := replaced
      rw [isSound_append, slots name first sound.1.1 sound.1.2 replacedHere, ih sound.2 restReplaced]
      rfl

/-- What is plain is sound whatever else is allowed. -/
theorem isSound_of_plain {inTag : Bool} {tree : Tree} (plain : tree.isSound .plain inTag = true)
    (vocabulary : Vocabulary) : tree.isSound vocabulary inTag = true := by
  let nothing : Replacement := ⟨fun _ => none, fun _ _ _ _ => none, fun _ => none⟩
  refine isSound_replace ?_ ?_ ?_ plain (replace_of_plain plain nothing)
  · intro inner tree _ _ replaced
    cases replaced
  · intro name mentions closed fills tree _ _ _ replaced
    cases replaced
  · intro name tree _ _ replaced
    cases replaced

theorem exists_replace {new : Replacement} (placeholders : ∀ inner, ∃ tree, new.placeholder inner = some tree)
    (components : ∀ name mentions closed fills, ∃ tree, new.component name mentions closed fills = some tree)
    (slots : ∀ name, ∃ tree, new.slot name = some tree) (tree : Tree) : ∃ result, tree.replace new = some result := by
  induction tree with
  | done => exact ⟨done, rfl⟩
  | text words rest ih =>
    obtain ⟨later, replaced⟩ := ih
    exact ⟨text words later, by rw [replace, replaced]; rfl⟩
  | placeholder inner rest ih =>
    obtain ⟨later, replaced⟩ := ih
    obtain ⟨first, here⟩ := placeholders inner
    exact ⟨first.append later, by rw [replace, here, replaced]; rfl⟩
  | element name mentions body rest ihBody ih =>
    obtain ⟨inner, bodyReplaced⟩ := ihBody
    obtain ⟨later, replaced⟩ := ih
    exact ⟨element name mentions inner later, by rw [replace, bodyReplaced, replaced]; rfl⟩
  | component name mentions closed fills rest ihFills ih =>
    obtain ⟨filled, fillsReplaced⟩ := ihFills
    obtain ⟨later, replaced⟩ := ih
    obtain ⟨first, here⟩ := components name mentions closed filled
    refine ⟨first.append later, ?_⟩
    rw [replace, fillsReplaced, replaced]
    change (new.component name mentions closed filled >>= _) = _
    rw [here]
    rfl
  | fill name body rest ihBody ih =>
    obtain ⟨inner, bodyReplaced⟩ := ihBody
    obtain ⟨later, replaced⟩ := ih
    exact ⟨fill name inner later, by rw [replace, bodyReplaced, replaced]; rfl⟩
  | slot name rest ih =>
    obtain ⟨later, replaced⟩ := ih
    obtain ⟨first, here⟩ := slots name
    exact ⟨first.append later, by rw [replace, here, replaced]; rfl⟩

end Tree

namespace Tree

theorem components_append (tree next : Tree) : (tree.append next).components = tree.components ++ next.components := by
  induction tree with
  | done => rfl
  | text _ rest ih | placeholder _ rest ih | slot _ rest ih => exact ih
  | element name mentions body rest _ ih => simp only [append, components, ih, List.append_assoc]
  | component name mentions closed fills rest _ ih =>
    simp only [append, components, ih, List.append_assoc, List.cons_append]
  | fill name body rest _ ih => simp only [append, components, ih, List.append_assoc]

theorem components_of_plain {inTag : Bool} {tree : Tree} (plain : tree.isSound .plain inTag = true) :
    tree.components = [] := by
  induction tree generalizing inTag with
  | done => rfl
  | text words rest ih =>
    cases inTag with
    | true => cases plain
    | false =>
      simp only [isSound, Bool.and_eq_true] at plain
      exact ih plain.2
  | element name mentions body rest ihBody ih =>
    cases inTag with
    | true => cases plain
    | false =>
      simp only [isSound, Bool.and_eq_true] at plain
      rw [components, ihBody plain.1.2, ih plain.2, List.append_nil]
  | fill name body rest ihBody ih =>
    cases inTag with
    | false => cases plain
    | true =>
      simp only [isSound, Bool.and_eq_true] at plain
      rw [components, ihBody plain.1.2, ih plain.2, List.append_nil]
  | placeholder | component | slot => cases inTag <;> cases plain

/-- A replacement that keeps the tags of components, and adds none, keeps their names. -/
theorem components_replace {new : Replacement}
    (placeholders : ∀ inner tree, new.placeholder inner = some tree → tree.components = [])
    (components : ∀ name mentions closed fills,
      new.component name mentions closed fills = some (component name mentions closed fills done))
    (slots : ∀ name tree, new.slot name = some tree → tree.components = [])
    {tree result : Tree} (replaced : tree.replace new = some result) : result.components = tree.components := by
  induction tree generalizing result with
  | done =>
    cases replaced
    rfl
  | text words rest ih =>
    simp only [replace, Option.bind_eq_bind, Option.bind_eq_some_iff, Option.some.injEq] at replaced
    obtain ⟨later, restReplaced, rfl⟩ := replaced
    have kept := ih restReplaced
    exact kept
  | placeholder inner rest ih =>
    simp only [replace, Option.bind_eq_bind, Option.bind_eq_some_iff, Option.some.injEq] at replaced
    obtain ⟨first, here, later, restReplaced, rfl⟩ := replaced
    rw [components_append, placeholders inner first here, ih restReplaced]
    rfl
  | element name mentions body rest ihBody ih | fill name body rest ihBody ih =>
    simp only [replace, Option.bind_eq_bind, Option.bind_eq_some_iff, Option.some.injEq] at replaced
    obtain ⟨inner, bodyReplaced, later, restReplaced, rfl⟩ := replaced
    simp only [Tree.components, ihBody bodyReplaced, ih restReplaced]
  | component name mentions closed fills rest ihFills ih =>
    simp only [replace, components, Option.bind_eq_bind, Option.bind_eq_some_iff, Option.some.injEq] at replaced
    obtain ⟨filled, fillsReplaced, first, rfl, later, restReplaced, rfl⟩ := replaced
    simp only [components_append, Tree.components, ihFills fillsReplaced, ih restReplaced, List.append_nil,
      List.cons_append]
  | slot name rest ih =>
    simp only [replace, Option.bind_eq_bind, Option.bind_eq_some_iff, Option.some.injEq] at replaced
    obtain ⟨first, here, later, restReplaced, rfl⟩ := replaced
    rw [components_append, slots name first here, ih restReplaced]
    rfl

end Tree

/-- The pieces that the parts of something are written as, one part after another. -/
def rewrite {α : Type} (write : α → Option (List Piece)) : List α → Option (List Piece)
  | [] => some []
  | part :: parts => do
    let first ← write part
    let others ← rewrite write parts
    some (first ++ others)

theorem rewrite_append {α : Type} (write : α → Option (List Piece)) (first second : List α) :
    rewrite write (first ++ second) = (do
      let first ← rewrite write first
      let second ← rewrite write second
      some (first ++ second)) := by
  induction first with
  | nil => cases later : rewrite write second <;> simp [rewrite, later]
  | cons part first ih =>
    rw [List.cons_append, rewrite, rewrite, ih]
    simp [Option.bind_assoc]

theorem rewrite_map {α β : Type} (write : β → Option (List Piece)) (f : α → β) (parts : List α) :
    rewrite write (parts.map f) = rewrite (fun part => write (f part)) parts := by
  induction parts with
  | nil => rfl
  | cons part parts ih => rw [List.map_cons, rewrite, rewrite, ih]

namespace Piece

/-- The piece is the tag of a slot. -/
def isSlot : Piece → Bool
  | .opening name _ closed => closed && name == "slot"
  | _ => false

def isPlaceholder : Piece → Bool
  | .placeholder _ => true
  | _ => false

end Piece

namespace Tree

/-- A replacement that keeps the tags of components can be done piece by piece. -/
theorem pieces_replace {new : Replacement} {write : Piece → Option (List Piece)}
    (kept : ∀ piece, piece.isSlot = false → piece.isPlaceholder = false → write piece = some [piece])
    (placeholders : ∀ inner, write (.placeholder inner) = (new.placeholder inner).map pieces)
    (slots : ∀ name, write (.opening "slot" [slotMention name] true) = (new.slot name).map pieces)
    (components : ∀ name mentions closed fills,
      new.component name mentions closed fills = some (component name mentions closed fills done))
    {vocabulary : Vocabulary} {inTag : Bool} {tree : Tree} (sound : tree.isSound vocabulary inTag = true) :
    (tree.replace new).map pieces = rewrite write tree.pieces := by
  have around {new? : Option Tree} {rest : Tree} {piece : Piece} (here : write piece = new?.map pieces)
      (ih : (rest.replace new).map pieces = rewrite write rest.pieces) :
      (do
        let first ← new?
        let rest ← rest.replace new
        some (first.append rest)).map pieces = rewrite write (piece :: rest.pieces) := by
    rw [rewrite, here, ← ih]
    cases new? with
    | none => rfl
    | some first => cases rest.replace new <;> simp [pieces_append]
  have nested {body rest : Tree} {name : Text} {mentions : List Mention} {node : Tree → Tree → Tree}
      (opening : (Piece.opening name mentions false).isSlot = false)
      (shape : ∀ body rest, (node body rest).pieces =
        .opening name mentions false :: body.pieces ++ .closing name :: rest.pieces)
      (ihBody : (body.replace new).map pieces = rewrite write body.pieces)
      (ih : (rest.replace new).map pieces = rewrite write rest.pieces) :
      (do
        let body ← body.replace new
        let rest ← rest.replace new
        some (node body rest)).map pieces = rewrite write (node body rest).pieces := by
    rw [shape, List.cons_append, rewrite, rewrite_append, rewrite, kept _ opening rfl, kept (.closing name) rfl rfl,
      ← ihBody, ← ih]
    cases body.replace new with
    | none => rfl
    | some body => cases rest.replace new <;> simp [shape]
  induction tree generalizing inTag with
  | done => rfl
  | text words rest ih =>
    cases inTag with
    | true => cases sound
    | false =>
      simp only [isSound, Bool.and_eq_true] at sound
      rw [replace, pieces, rewrite, kept (.text words) rfl rfl, ← ih sound.2]
      cases rest.replace new <;> rfl
  | placeholder inner rest ih =>
    cases inTag with
    | true => cases sound
    | false =>
      simp only [isSound, Bool.and_eq_true] at sound
      exact around (placeholders inner) (ih sound.2)
  | element name mentions body rest ihBody ih =>
    cases inTag with
    | true => cases sound
    | false =>
      simp only [isSound, Bool.and_eq_true] at sound
      exact @nested body rest name mentions (element name mentions) rfl (fun _ _ => rfl) (ihBody sound.1.2) (ih sound.2)
  | component name mentions closed fills rest ihFills ih =>
    cases inTag with
    | true => cases sound
    | false =>
      simp only [isSound, isComponentTag, Bool.and_eq_true] at sound
      have fillsWritten := ihFills sound.1.2
      have restWritten := ih sound.2
      have opening : (Piece.opening name mentions closed).isSlot = false := by
        have notSlot : name ≠ "slot".toList := by
          rintro rfl
          exact absurd sound.1.1.2.1.1.1 (by decide)
        rw [Piece.isSlot, beq_eq_false_iff_ne.2 notSlot, Bool.and_false]
      rw [replace]
      simp only [components]
      cases closed with
      | true =>
        have noFills := sound.1.1.2.2
        simp only [Bool.not_true, Bool.false_or, decide_eq_true_eq] at noFills
        subst noFills
        simp only [pieces, ComponentTag.element, if_true, List.cons_append, List.nil_append]
        rw [rewrite, kept _ opening rfl, ← restWritten]
        cases rest.replace new <;> rfl
      | false =>
        exact @nested fills rest name mentions (component name mentions false) opening
          (fun _ _ => by simp [pieces, ComponentTag.element]) fillsWritten restWritten
  | fill name body rest ihBody ih =>
    cases inTag with
    | false => cases sound
    | true =>
      simp only [isSound, Bool.and_eq_true] at sound
      exact @nested body rest "slot" [slotMention name] (fill name) rfl (fun _ _ => rfl) (ihBody sound.1.2) (ih sound.2)
  | slot name rest ih =>
    cases inTag with
    | true => cases sound
    | false =>
      simp only [isSound, Bool.and_eq_true] at sound
      exact around (slots name) (ih sound.2)

end Tree

end ComponentPages
