import ComponentPages.Proofs.Markup.Library
import ComponentPages.Proofs.Markup.Slot

/-!
Markup as expansion goes through it: from the left, the tag of a component with all its children at once, anything
else piece by piece. What the items mean, one after another, is what the tree means.
-/
namespace ComponentPages

inductive Item where
  | plain (piece : Piece)
  | component (name : Text) (mentions : List Mention) (closed : Bool) (fills : Tree)

namespace Item

def pieces : Item → List Piece
  | plain piece => [piece]
  | component name mentions closed fills => ComponentTag.element name mentions closed fills.pieces

def isSound : Item → Bool
  | plain piece => piece.isSound && piece.component?.isNone
  | component name mentions closed fills => Tree.isComponentTag name mentions closed fills && fills.isSound .page true

/-- The names of the components that an item holds. -/
def components : Item → List Text
  | plain _ => []
  | component name _ _ fills => name :: fills.components

def meaning (expand : Expander) (scope : Scope) : Item → Option (List Piece)
  | plain piece => (piece.fill scope).toOption.map fun filled => [filled]
  | component name mentions _ fills => do
    let filled ← fills.meaning expand scope []
    let expanded ← expand name mentions scope (Bindings.ofList filled.fills)
    some expanded.pieces

theorem isSound_pieces {item : Item} (sound : item.isSound = true) : ∀ piece ∈ item.pieces, piece.isSound = true := by
  cases item with
  | plain piece =>
    simp only [isSound, Bool.and_eq_true] at sound
    intro other member
    rw [List.mem_singleton.1 member]
    exact sound.1
  | component name mentions closed fills =>
    have whole : (Tree.component name mentions closed fills .done).pieces = ComponentTag.element name mentions closed
        fills.pieces := List.append_nil _
    rw [pieces, ← whole]
    simp only [isSound, Bool.and_eq_true] at sound
    exact Tree.isSound_pieces (Tree.isSound_component rfl sound.1 sound.2)

/-- Items are plain up to the first component. -/
theorem exists_plains (items : List Item) :
    (∃ plains : List Piece, items = plains.map plain) ∨ ∃ (plains : List Piece) (name : Text) (mentions : List Mention)
      (closed : Bool) (fills : Tree) (rest : List Item),
        items = plains.map plain ++ component name mentions closed fills :: rest := by
  induction items with
  | nil => exact .inl ⟨[], rfl⟩
  | cons item items ih =>
    cases item with
    | component name mentions closed fills => exact .inr ⟨[], name, mentions, closed, fills, items, rfl⟩
    | plain piece =>
      rcases ih with ⟨plains, rfl⟩ | ⟨plains, name, mentions, closed, fills, rest, rfl⟩
      · exact .inl ⟨piece :: plains, rfl⟩
      · exact .inr ⟨piece :: plains, name, mentions, closed, fills, rest, rfl⟩

end Item

namespace Tree

/-- The items at the top of a tree. -/
def items : Tree → List Item
  | done => []
  | text words rest => .plain (.text words) :: rest.items
  | placeholder inner rest => .plain (.placeholder inner) :: rest.items
  | element name mentions body rest =>
    .plain (.opening name mentions false) :: body.items ++ .plain (.closing name) :: rest.items
  | component name mentions closed fills rest => .component name mentions closed fills :: rest.items
  | fill name body rest =>
    .plain (.opening "slot" [slotMention name] false) :: body.items ++ .plain (.closing "slot") :: rest.items
  | slot name rest => .plain (.opening "slot" [slotMention name] true) :: rest.items

theorem pieces_items (tree : Tree) : tree.items.flatMap Item.pieces = tree.pieces := by
  induction tree with
  | done => rfl
  | text words rest ih => rw [items, List.flatMap_cons, ih, pieces]; rfl
  | placeholder inner rest ih => rw [items, List.flatMap_cons, ih, pieces]; rfl
  | element name mentions body rest ihBody ih => simp [items, pieces, Item.pieces, ihBody, ih]
  | component name mentions closed fills rest _ ih => rw [items, List.flatMap_cons, ih, pieces]; rfl
  | fill name body rest ihBody ih => simp [items, pieces, Item.pieces, ihBody, ih]
  | slot name rest ih => rw [items, List.flatMap_cons, ih, pieces]; rfl

theorem components_items (tree : Tree) : tree.items.flatMap Item.components = tree.components := by
  induction tree with
  | done => rfl
  | text words rest ih => rw [items, List.flatMap_cons, ih, components]; rfl
  | placeholder inner rest ih => rw [items, List.flatMap_cons, ih, components]; rfl
  | element name mentions body rest ihBody ih => simp [items, components, Item.components, ihBody, ih]
  | component name mentions closed fills rest _ ih => rw [items, List.flatMap_cons, ih, components]; rfl
  | fill name body rest ihBody ih => simp [items, components, Item.components, ihBody, ih]
  | slot name rest ih => rw [items, List.flatMap_cons, ih, components]; rfl

theorem not_isPascalCase_of_isElementName {name : Text} (element : isElementName name = true) :
    isPascalCase name = false := by
  cases name with
  | nil => rfl
  | cons c name =>
    simp only [isElementName, Bool.and_eq_true] at element
    rw [isPascalCase, not_isUpper_of_isLower element.1, Bool.false_and]

theorem isSound_items {inTag : Bool} {tree : Tree} (sound : tree.isSound .page inTag = true) :
    ∀ item ∈ tree.items, item.isSound = true := by
  have plain {inTag : Bool} {tree : Tree} (sound : tree.isSound .page inTag = true) {piece : Piece}
      (member : piece ∈ tree.pieces) (free : piece.component? = none) : (Item.plain piece).isSound = true := by
    rw [Item.isSound, isSound_pieces sound piece member, free]
    rfl
  induction tree generalizing inTag with
  | done => simp [items]
  | text words rest ih | placeholder inner rest ih =>
    have here := plain sound List.mem_cons_self rfl
    cases inTag with
    | true => cases sound
    | false =>
      simp only [isSound, Bool.and_eq_true] at sound
      intro item member
      rcases List.mem_cons.1 member with rfl | later
      · exact here
      · exact ih sound.2 item later
  | element name mentions body rest ihBody ih =>
    have whole := sound
    cases inTag with
    | true => cases sound
    | false =>
      simp only [isSound, Bool.and_eq_true] at sound
      have other := not_isPascalCase_of_isElementName sound.1.1.1.1.1
      intro item member
      simp only [items, List.cons_append, List.mem_cons, List.mem_append] at member
      rcases member with rfl | inBody | rfl | later
      · exact plain whole List.mem_cons_self (by simp [Piece.component?, other])
      · exact ihBody sound.1.2 item inBody
      · exact plain whole (by simp [pieces]) (by simp [Piece.component?, other])
      · exact ih sound.2 item later
  | component name mentions closed fills rest _ ih =>
    cases inTag with
    | true => cases sound
    | false =>
      simp only [isSound, Bool.and_eq_true] at sound
      intro item member
      rcases List.mem_cons.1 member with rfl | later
      · exact Bool.and_eq_true_iff.2 ⟨sound.1.1.2, sound.1.2⟩
      · exact ih sound.2 item later
  | fill name body rest ihBody ih =>
    have whole := sound
    cases inTag with
    | false => cases sound
    | true =>
      simp only [isSound, Bool.and_eq_true] at sound
      intro item member
      simp only [items, List.cons_append, List.mem_cons, List.mem_append] at member
      rcases member with rfl | inBody | rfl | later
      · exact plain whole List.mem_cons_self rfl
      · exact ihBody sound.1.2 item inBody
      · exact plain whole (by simp [pieces]) rfl
      · exact ih sound.2 item later
  | slot name rest _ =>
    cases inTag with
    | true => cases sound
    | false => cases sound

/-- What the items of a tree mean, one after another, is what the tree means. -/
theorem meaning_items (expand : Expander) (scope : Scope) {inTag : Bool} {tree : Tree}
    (sound : tree.isSound .page inTag = true) :
    (tree.meaning expand scope []).map pieces = rewrite (Item.meaning expand scope) tree.items := by
  have fixed {piece : Piece} (kept : piece.isPlaceholder = false) :
      Item.meaning expand scope (.plain piece) = some [piece] := by
    cases piece with
    | placeholder inner => cases kept
    | text | opening | closing => rfl
  have nested {body rest : Tree} {opening closing : Piece} {node : Tree → Tree → Tree}
      (kept : opening.isPlaceholder = false) (closes : closing.isPlaceholder = false)
      (shape : ∀ body rest, (node body rest).pieces = opening :: body.pieces ++ closing :: rest.pieces)
      (ihBody : (body.meaning expand scope []).map pieces = rewrite (Item.meaning expand scope) body.items)
      (ih : (rest.meaning expand scope []).map pieces = rewrite (Item.meaning expand scope) rest.items) :
      (do
        let body ← body.meaning expand scope []
        let rest ← rest.meaning expand scope []
        some (node body rest)).map pieces =
          rewrite (Item.meaning expand scope) (.plain opening :: body.items ++ .plain closing :: rest.items) := by
    rw [List.cons_append, rewrite, rewrite_append, rewrite, fixed kept, fixed closes, ← ihBody, ← ih]
    cases body.meaning expand scope [] with
    | none => rfl
    | some body => cases rest.meaning expand scope [] <;> simp [shape]
  induction tree generalizing inTag with
  | done => rfl
  | text words rest ih =>
    cases inTag with
    | true => cases sound
    | false =>
      simp only [isSound, Bool.and_eq_true] at sound
      rw [items, rewrite, ← ih sound.2, fixed rfl, meaning, replace, ← meaning]
      cases rest.meaning expand scope [] <;> rfl
  | placeholder inner rest ih =>
    cases inTag with
    | true => cases sound
    | false =>
      simp only [isSound, Bool.and_eq_true] at sound
      rw [items, rewrite, ← ih sound.2, meaning, replace, ← meaning, Item.meaning, Piece.fill]
      simp only [Replacement.meaning]
      cases Expression.evaluate inner scope with
      | error failure => rfl
      | ok value => cases rest.meaning expand scope [] <;> rfl
  | element name mentions body rest ihBody ih =>
    cases inTag with
    | true => cases sound
    | false =>
      simp only [isSound, Bool.and_eq_true] at sound
      exact nested rfl rfl (fun _ _ => rfl) (ihBody sound.1.2) (ih sound.2)
  | component name mentions closed fills rest _ ih =>
    cases inTag with
    | true => cases sound
    | false =>
      simp only [isSound, Bool.and_eq_true] at sound
      rw [items, rewrite, ← ih sound.2, meaning, replace, ← meaning, ← meaning, Item.meaning]
      simp only [Replacement.meaning]
      cases fills.meaning expand scope [] with
      | none => rfl
      | some filled =>
        dsimp only [Option.bind_eq_bind, Option.bind_some]
        cases expand name mentions scope (Bindings.ofList filled.fills) with
        | none => rfl
        | some first => cases rest.meaning expand scope [] <;> simp [pieces_append]
  | fill name body rest ihBody ih =>
    cases inTag with
    | false => cases sound
    | true =>
      simp only [isSound, Bool.and_eq_true] at sound
      exact nested rfl rfl (fun _ _ => rfl) (ihBody sound.1.2) (ih sound.2)
  | slot name rest _ =>
    cases inTag with
    | true => cases sound
    | false => cases sound

end Tree

end ComponentPages
