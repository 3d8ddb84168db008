import ComponentPages.Proofs.Markup.Template

/-!
Loaded components and what their tags stand for, however the components were written: the template, in a scope that
holds the arguments of the tag alone, with the fills of the tag in place of the template's slots.
-/
namespace ComponentPages

/-- A loaded component whose template is sound markup. -/
structure Blueprint where
  component : Component
  template : Tree
  sound : template.isSound .template false = true
  printed : component.template = template.print

/-- Loaded components by the names that pages know them by. -/
abbrev Catalogue := Text → Option Blueprint

/-- Every component of a tree that means something stands for something. -/
theorem Expander.expands_of_meaning {holds : Text → Prop} {expand : Expander}
    (every : ∀ name mentions scope fills tree, expand name mentions scope fills = some tree → holds name)
    {scope : Scope} {slots : Bindings Tree} {tree result : Tree} (means : tree.meaning expand scope slots = some result) :
    ∀ name ∈ tree.components, holds name := by
  unfold Tree.meaning at means
  induction tree generalizing result with
  | done => simp [Tree.components]
  | text words rest ih =>
    simp only [Tree.replace, Option.bind_eq_bind, Option.bind_eq_some_iff, Option.some.injEq] at means
    obtain ⟨later, restMeans, -⟩ := means
    exact ih restMeans
  | placeholder inner rest ih | slot name rest ih =>
    simp only [Tree.replace, Option.bind_eq_bind, Option.bind_eq_some_iff, Option.some.injEq] at means
    obtain ⟨-, -, later, restMeans, -⟩ := means
    exact ih restMeans
  | element name mentions body rest ihBody ih | fill name body rest ihBody ih =>
    simp only [Tree.replace, Option.bind_eq_bind, Option.bind_eq_some_iff, Option.some.injEq] at means
    obtain ⟨inner, bodyMeans, later, restMeans, -⟩ := means
    intro other member
    rcases List.mem_append.1 member with inBody | inRest
    · exact ihBody bodyMeans other inBody
    · exact ih restMeans other inRest
  | component name mentions closed fills rest ihFills ih =>
    simp only [Tree.replace, Option.bind_eq_bind, Option.bind_eq_some_iff, Option.some.injEq] at means
    obtain ⟨filled, fillsMean, first, expanded, later, restMeans, -⟩ := means
    intro other member
    simp only [Tree.components, List.cons_append, List.mem_cons, List.mem_append] at member
    rcases member with rfl | inFills | inRest
    · exact every _ _ _ _ _ expanded
    · exact ihFills fillsMean other inFills
    · exact ih restMeans other inRest

namespace Catalogue

variable {catalogue : Catalogue} {strict : Bool}

/-- What components stand for when at most so many are nested. -/
def expand (catalogue : Catalogue) (strict : Bool) : Nat → Expander
  | 0 => fun _ _ _ _ => none
  | depth + 1 => fun name mentions caller fills => do
    let blueprint ← catalogue name
    let arguments ← blueprint.component.props.arguments? strict caller mentions
    blueprint.template.meaning (catalogue.expand strict depth) arguments fills

theorem expand_succ (depth : Nat) (name : Text) (mentions : List Mention) (scope : Scope) (fills : Bindings Tree) :
    catalogue.expand strict (depth + 1) name mentions scope fills =
      (catalogue name).bind fun blueprint =>
        (blueprint.component.props.arguments? strict scope mentions).bind fun arguments =>
          blueprint.template.meaning (catalogue.expand strict depth) arguments fills :=
  rfl

theorem exists_of_expand {depth : Nat} {name : Text} {mentions : List Mention} {scope : Scope} {fills : Bindings Tree}
    {tree : Tree} (expanded : catalogue.expand strict (depth + 1) name mentions scope fills = some tree) :
    ∃ blueprint arguments, catalogue name = some blueprint ∧
      blueprint.component.props.arguments? strict scope mentions = some arguments ∧
        blueprint.template.meaning (catalogue.expand strict depth) arguments fills = some tree := by
  simp only [expand_succ, Option.bind_eq_some_iff] at expanded
  obtain ⟨blueprint, found, arguments, passed, means⟩ := expanded
  exact ⟨blueprint, arguments, found, passed, means⟩

/-- What components stand for is plain. -/
theorem expands (catalogue : Catalogue) (strict : Bool) (depth : Nat) : (catalogue.expand strict depth).Expands := by
  induction depth with
  | zero =>
    intro name mentions scope fills tree _ _ _ expanded
    cases expanded
  | succ depth ih =>
    intro name mentions scope fills tree sound clean plain expanded
    obtain ⟨blueprint, arguments, -, passed, means⟩ := exists_of_expand expanded
    exact Tree.isSound_meaning ih (Props.isClean_arguments? sound clean passed) plain blueprint.sound means

/-- Whether no more than so many components nest below a component, whatever the pages that use it. -/
def Fits (catalogue : Catalogue) : Nat → Text → Prop
  | 0, _ => False
  | depth + 1, name => ∃ blueprint, catalogue name = some blueprint ∧
    ∀ other ∈ blueprint.template.components, catalogue.Fits depth other

theorem fits_of_expand {depth : Nat} {name : Text} {mentions : List Mention} {scope : Scope} {fills : Bindings Tree}
    {tree : Tree} (expanded : catalogue.expand strict depth name mentions scope fills = some tree) :
    catalogue.Fits depth name := by
  induction depth generalizing name mentions scope fills tree with
  | zero => cases expanded
  | succ depth ih =>
    obtain ⟨blueprint, arguments, found, -, means⟩ := exists_of_expand expanded
    have every : ∀ name mentions scope fills tree,
        catalogue.expand strict depth name mentions scope fills = some tree → catalogue.Fits depth name :=
      fun name mentions scope fills tree => ih
    exact ⟨blueprint, found, Expander.expands_of_meaning every means⟩

end Catalogue

/-! ### Collections and libraries -/

def Outline.blueprint {outline : Outline} (sound : outline.isSound = true) (addScope : Bool) : Blueprint where
  component := outline.component addScope
  template := outline.template addScope
  sound := Outline.isSound_template sound addScope
  printed := rfl

namespace Collection

/-- The components that a collection loads into. -/
def catalogue (collection : Collection) (addScope : Bool) : Catalogue := fun name =>
  (collection.find? name).pmap (fun _ sound => Outline.blueprint sound addScope) fun _ found => isSound_of_find? found

theorem catalogue_of_find? {collection : Collection} {name : Text} {outline : Outline}
    (found : collection.find? name = some outline) (addScope : Bool) :
    collection.catalogue addScope name = some (Outline.blueprint (isSound_of_find? found) addScope) := by
  simp [catalogue, found]

theorem catalogue_of_missing {collection : Collection} {name : Text} (missing : collection.find? name = none)
    (addScope : Bool) : collection.catalogue addScope name = none := by
  simp [catalogue, missing]

theorem map_component_catalogue (collection : Collection) (addScope : Bool) (name : Text) :
    (collection.catalogue addScope name).map Blueprint.component =
      (collection.find? name).map (Outline.component · addScope) := by
  cases found : collection.find? name with
  | none => rw [catalogue_of_missing found]; rfl
  | some outline => rw [catalogue_of_find? found]; rfl

end Collection

namespace Library

/-- The components that a library loads into. -/
def catalogue (library : Library) (addScope : Bool) : Catalogue := library.collection.catalogue addScope

theorem map_component_catalogue (library : Library) (addScope : Bool) (name : Text) :
    (library.catalogue addScope name).map Blueprint.component =
      (library.find? name).map (Definition.component · addScope) := by
  rw [catalogue, library.collection.map_component_catalogue, library.find?_collection, Option.map_map]
  exact Option.map_congr fun definition found => Definition.component_outline (isSound_of_find? found) addScope

theorem expand_catalogue (library : Library) (strict addScope : Bool) (depth : Nat) :
    (library.catalogue addScope).expand strict depth = library.expand strict addScope depth := by
  induction depth with
  | zero => rfl
  | succ depth ih =>
    funext name mentions scope fills
    rw [Catalogue.expand, expand, ih]
    dsimp only
    have outlined := library.find?_collection name
    cases found : library.find? name with
    | none =>
      rw [found] at outlined
      rw [catalogue, Collection.catalogue_of_missing outlined]
      rfl
    | some definition =>
      rw [found] at outlined
      rw [catalogue, Collection.catalogue_of_find? outlined, Option.bind_eq_bind, Option.bind_some]
      change ((definition.arguments? strict scope mentions).bind fun arguments =>
        (definition.outline.template addScope).meaning (library.expand strict addScope depth) arguments fills) = _
      rw [Definition.template_outline (isSound_of_find? found)]
      rfl

/-- What a library's components stand for is plain. -/
theorem expands (library : Library) (strict addScope : Bool) (depth : Nat) :
    (library.expand strict addScope depth).Expands := by
  rw [← expand_catalogue]
  exact (library.catalogue addScope).expands strict depth

end Library

end ComponentPages
