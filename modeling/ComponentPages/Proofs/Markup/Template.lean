import ComponentPages.Proofs.Markup.Item
import ComponentPages.Proofs.Markup.Outline

/-!
A definition is an outline whose root is an element. So it loads, and so does a library.
-/
namespace ComponentPages

namespace Definition

/-- What loading makes of a definition. -/
def component (definition : Definition) (addScope : Bool) : Component where
  name := definition.name
  template := (definition.template addScope).print
  props := definition.props
  scopeId := Component.scopeIdFor definition.name
  css := []

def outline (definition : Definition) : Outline where
  name := definition.name
  quote := definition.quote
  declaration := definition.declaration
  props := definition.props
  root := { name := definition.root, mentions := definition.mentions, body := definition.body }

variable {definition : Definition}

theorem not_isPascalCase_root (sound : definition.isSound = true) : ¬isPascalCase definition.root = true := by
  simp only [isSound, Bool.and_eq_true] at sound
  obtain ⟨⟨⟨-, root⟩, -⟩, -⟩ := sound
  rw [Tree.not_isPascalCase_of_isElementName root.1.1.1]
  exact Bool.false_ne_true

theorem template_outline (sound : definition.isSound = true) (addScope : Bool) :
    definition.outline.template addScope = definition.template addScope := by
  have element := not_isPascalCase_root sound
  cases addScope with
  | true => exact @Root.tree_mark_of_not_isPascalCase definition.outline.root element _
  | false => exact @Root.tree_of_not_isPascalCase definition.outline.root element

theorem source_outline (sound : definition.isSound = true) : definition.outline.source = definition.source :=
  congrArg Tree.print (@Root.tree_mark_of_not_isPascalCase definition.outline.root (not_isPascalCase_root sound) _)

theorem component_outline (sound : definition.isSound = true) (addScope : Bool) :
    definition.outline.component addScope = definition.component addScope := by
  rw [Outline.component, template_outline sound]
  rfl

theorem isSound_outline (sound : definition.isSound = true) : definition.outline.isSound = true := by
  have tree := template_outline sound false
  have treeSound := isSound_template sound false
  simp only [isSound, Bool.and_eq_true] at sound
  obtain ⟨⟨⟨⟨⟨pascal, declared⟩, listed⟩, root⟩, -⟩, -⟩ := sound
  have closable : RootElement.voidNames.contains (Text.lower definition.root) = false := by
    rw [RootElement.lower_of_isElementName root.1.1.1]
    simpa using root.2
  change definition.outline.root.tree = _ at tree
  have rootSound : definition.outline.root.isSound = true := by
    rw [Root.isSound, tree, treeSound]
    change (true && !RootElement.voidNames.contains (Text.lower definition.root) &&
      (isPascalCase definition.root || true)) = true
    rw [closable, Bool.or_true]
    rfl
  simp only [Outline.isSound, Bool.and_eq_true]
  exact ⟨⟨⟨pascal.1, declared⟩, listed⟩, rootSound⟩

/-- A definition loads. -/
theorem load_source (sound : definition.isSound = true) (path : Option Text) (addScope : Bool) :
    Component.load definition.name definition.source path addScope =
      .ok { definition.component addScope with path } := by
  rw [← source_outline sound, ← component_outline sound]
  exact Outline.load_source (isSound_outline sound) path addScope

end Definition

namespace Library

/-- The registry that a library's sources load into, one after another. -/
def load (library : Library) (addScope : Bool) : Except Failure Registry :=
  library.definitions.foldlM (fun registry definition =>
    Component.load definition.name definition.source none addScope >>= registry.add) {}

def collection (library : Library) : Collection where
  outlines := library.definitions.map Definition.outline
  sound := by
    intro outline member
    obtain ⟨definition, listed, rfl⟩ := List.mem_map.1 member
    exact Definition.isSound_outline (library.sound definition listed)
  distinct := by
    rw [List.map_map]
    exact library.distinct

theorem find?_collection (library : Library) (name : Text) :
    library.collection.find? name = (library.find? name).map Definition.outline := by
  rw [Collection.find?, collection, List.find?_map]
  rfl

/-- A library loads whole. -/
theorem load_eq_ok (library : Library) (addScope : Bool) :
    library.load addScope = .ok ⟨library.definitions.map (Definition.component · addScope)⟩ := by
  have sources : library.collection.sources =
      library.definitions.map fun definition => (definition.name, definition.source) := by
    rw [Collection.sources, collection, List.map_map]
    exact List.map_congr_left fun definition listed =>
      congrArg (definition.name, ·) (Definition.source_outline (library.sound definition listed))
  have components : library.collection.outlines.map (Outline.component · addScope) =
      library.definitions.map (Definition.component · addScope) := by
    rw [collection, List.map_map]
    exact List.map_congr_left fun definition listed =>
      Definition.component_outline (library.sound definition listed) addScope
  have loaded := library.collection.ofSources_eq_ok addScope
  rw [sources, components, Registry.ofSources, List.foldlM_map] at loaded
  exact loaded

theorem find?_load (library : Library) (addScope : Bool) (name : Text) :
    Registry.find? ⟨library.definitions.map (Definition.component · addScope)⟩ name =
      (library.find? name).map (Definition.component · addScope) := by
  rw [Registry.find?, List.find?_map]
  rfl

end Library

end ComponentPages
