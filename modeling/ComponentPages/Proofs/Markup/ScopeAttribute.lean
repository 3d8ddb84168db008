import ComponentPages.Proofs.Markup.Expansion

/-!
The scope attribute and the compilations after it. On an element the attribute stays where it is. On another
component's tag it becomes one more argument: no expression reads it, because its name is no identifier, but a strict
compilation refuses it, because no component declares it.
-/
namespace ComponentPages

open Compile (Gives)

/-! ### Loading -/

/-- The scope attribute is added after all that can fail. -/
theorem Component.load_addScope {name source : Text} {path : Option Text} {component : Component}
    (loaded : load name source path false = .ok component) :
    ∃ template, load name source path true = .ok { component with template } := by
  unfold load at loaded ⊢
  by_cases pascal : isPascalCase name = true
  · simp only [pascal, Bool.not_true, Bool.false_eq_true, if_false, bind, Except.bind, if_true] at loaded ⊢
    cases read : Props.read (Stylesheet.extract source (scopeIdFor name)).1 with
    | error failure =>
      rw [read] at loaded
      cases loaded
    | ok parts =>
      rw [read] at loaded
      dsimp only at loaded ⊢
      by_cases single : RootElement.isSingle (Slot.normalize parts.2) = true
      · rw [single] at loaded ⊢
        cases loaded
        exact ⟨_, rfl⟩
      · rw [Bool.eq_false_of_not_eq_true single] at loaded
        cases loaded
  · rw [Bool.eq_false_of_not_eq_true pascal] at loaded
    cases path with
    | none => cases loaded
    | some path => cases path <;> cases loaded

namespace Registry

theorem add_eq_ok_iff {registry added : Registry} {component : Component} :
    registry.add component = .ok added ↔
      component.name ∉ registry.names ∧ added = ⟨registry.components ++ [component]⟩ := by
  constructor
  · intro adds
    by_cases fresh : component.name ∈ registry.names
    · have known : (registry.find? component.name).isSome = true := by
        obtain ⟨other, listed, same⟩ := List.mem_map.1 fresh
        exact List.find?_isSome.2 ⟨other, listed, decide_eq_true same⟩
      rw [add, if_pos known] at adds
      cases adds
    · rw [add_of_fresh fresh] at adds
      exact ⟨fresh, (Except.ok.inj adds).symm⟩
  · rintro ⟨fresh, rfl⟩
    exact add_of_fresh fresh

/-- Sources that load also load with scope attributes. -/
theorem ofSources_addScope {sources : List (Text × Text)} {plain : Registry}
    (loaded : ofSources sources false = .ok plain) :
    ∃ marked, ofSources sources true = .ok marked ∧ marked.names = plain.names := by
  have loads (sources : List (Text × Text)) (first second : Registry) (same : first.names = second.names)
      (loaded : sources.foldlM (fun registry pair => Component.load pair.1 pair.2 none false >>= registry.add)
        second = .ok plain) :
      ∃ marked, sources.foldlM (fun registry pair => Component.load pair.1 pair.2 none true >>= registry.add)
        first = .ok marked ∧ marked.names = plain.names := by
    induction sources generalizing first second with
    | nil =>
      cases loaded
      exact ⟨first, rfl, same⟩
    | cons pair sources ih =>
      obtain ⟨name, source⟩ := pair
      rw [List.foldlM_cons] at loaded ⊢
      dsimp only at loaded ⊢
      cases read : Component.load name source none false with
      | error failure =>
        rw [read] at loaded
        cases loaded
      | ok component =>
        obtain ⟨template, readMarked⟩ := Component.load_addScope read
        rw [read] at loaded
        rw [readMarked]
        change (second.add component >>= _) = _ at loaded
        change ∃ marked, (first.add { component with template } >>= _) = _ ∧ _
        cases adds : second.add component with
        | error failure =>
          rw [adds] at loaded
          cases loaded
        | ok added =>
          obtain ⟨fresh, rfl⟩ := add_eq_ok_iff.1 adds
          rw [adds] at loaded
          rw [← same] at fresh
          rw [@add_of_fresh first { component with template } fresh]
          exact ih _ _ (by simpa [names] using same) loaded
  exact loads sources {} {} rfl loaded

end Registry

/-! ### Scopes with the same variables -/

/-- Whether two scopes agree on every name that an expression can read. -/
def SameVariables (scope other : Scope) : Prop :=
  ∀ name, Text.isIdentifier name = true → Bindings.get? name scope = Bindings.get? name other

theorem SameVariables.refl (scope : Scope) : SameVariables scope scope := fun _ _ => rfl

theorem Expression.evaluate_congr {scope other : Scope} (same : SameVariables scope other) (written : Text) :
    evaluate written scope = evaluate written other := by
  unfold evaluate
  fun_induction read written with
  | case1 | case2 | case6 => rfl
  | case3 _ _ _ _ operator left right _ ihLeft ihRight => rw [eval, eval, ihLeft, ihRight]
  | case4 _ _ _ _ _ inside _ ih => exact ih
  | case5 _ text _ _ _ _ identifier =>
    have lookups := same text identifier
    unfold Bindings.get? at lookups
    rw [eval, eval, lookups]

theorem Mention.argument?_congr {scope other : Scope} (same : SameVariables scope other) (props : Props) (strict : Bool)
    (mention : Mention) : mention.argument? props strict scope = mention.argument? props strict other := by
  unfold argument?
  cases mention.written with
  | constant => rfl
  | expression text => rw [Written.meaning, Written.meaning, Expression.evaluate_congr same]

/-! ### Declared names are identifiers -/

namespace Props

/-- Whether every prop is named by an identifier. -/
def IsNamed (props : Props) : Prop := ∀ name ∈ Bindings.names props, Text.isIdentifier name = true

variable {props : Props}

theorem IsNamed.of_addListed (named : props.IsNamed) {declaration : Text} {result : Props}
    (added : addListed props declaration = .ok result) : result.IsNamed := by
  unfold addListed at added
  split at added
  · cases added
    exact named
  · next name typeName words =>
    split at added
    · cases added
    · unfold declare at added
      split at added
      · next identifier =>
        split at added
        · cases added
          intro other member
          rcases Bindings.mem_names_set member with rfl | old
          · exact identifier
          · exact named other old
        · cases added
      · cases added
  · cases added

theorem IsNamed.of_foldlM (named : props.IsNamed) {declarations : List Text} {result : Props}
    (listed : declarations.foldlM addListed props = .ok result) : result.IsNamed := by
  induction declarations generalizing props with
  | nil =>
    cases listed
    exact named
  | cons declaration declarations ih =>
    rw [List.foldlM_cons] at listed
    cases added : addListed props declaration with
    | error failure =>
      rw [added] at listed
      cases listed
    | ok later =>
      rw [added] at listed
      exact ih (named.of_addListed added) listed

theorem IsNamed.get?_eq_none (named : props.IsNamed) {name : Text} (other : Text.isIdentifier name = false) :
    Bindings.get? name props = none := by
  by_contra declared
  obtain ⟨type, found⟩ := Option.ne_none_iff_exists'.1 declared
  have identifier := named name (List.mem_map_of_mem (Bindings.mem_of_get? found))
  rw [other] at identifier
  cases identifier

end Props

theorem Component.not_isIdentifier_scopeIdFor (name : Text) : Text.isIdentifier (scopeIdFor name) = false := by
  have front : ("data-" : Text) = ['d', 'a', 't', 'a', '-'] := rfl
  rw [scopeIdFor, front]
  rfl

theorem Outline.isNamed_props {outline : Outline} (sound : outline.isSound = true) : outline.props.IsNamed := by
  simp only [isSound, Bool.and_eq_true] at sound
  have listed := eq_ok_of_toOption (beq_iff_eq.1 sound.1.2)
  exact Props.IsNamed.of_foldlM (by simp [Props.IsNamed, Bindings.names]) listed

/-! ### One more argument -/

/-- Whether the second tag has the attributes of the first or, when that is no error, a scope attribute as well. -/
def MayCarry (strict : Bool) (mentions others : List Mention) : Prop :=
  others = mentions ∨ strict = false ∧ ∃ name, others = scopeMention name :: mentions

namespace Props

variable {props : Props}

theorem withZeros_congr (named : props.IsNamed) {given other : Scope} (same : SameVariables given other) :
    SameVariables (withZeros props given) (withZeros props other) := by
  induction props generalizing given other with
  | nil => exact same
  | cons prop props ih =>
    obtain ⟨key, type⟩ := prop
    apply ih fun name member => named name (List.mem_cons_of_mem key member)
    have identifier : Text.isIdentifier key = true := named key List.mem_cons_self
    have bound : Bindings.binds key given = Bindings.binds key other := by
      rw [Bindings.binds_eq_isSome, Bindings.binds_eq_isSome, same key identifier]
    dsimp only
    rw [bound]
    split
    · exact same
    · intro name readable
      rw [Bindings.get?_set, Bindings.get?_set, same name readable]

theorem argument?_scopeMention (named : props.IsNamed) (strict : Bool) (name : Text) (scope : Scope) :
    (scopeMention name).argument? props strict scope =
      if strict then none else some (Component.scopeIdFor name, .string []) := by
  have undeclared := named.get?_eq_none (Component.not_isIdentifier_scopeIdFor name)
  change (if accepts props strict (Component.scopeIdFor name) (.string []) then
    some (Component.scopeIdFor name, Value.string []) else none) = _
  rw [accepts, undeclared]
  cases strict <;> rfl

theorem arguments?_scopeMention (named : props.IsNamed) (name : Text) (scope : Scope) (mentions : List Mention) :
    props.arguments? true scope (scopeMention name :: mentions) = none := by
  have refused := argument?_scopeMention named true name scope
  rw [if_pos rfl] at refused
  unfold arguments?
  rw [List.mapM_cons, refused]
  rfl

/-- A scope attribute among the arguments changes no variable of the template. -/
theorem arguments?_rel (named : props.IsNamed) {strict : Bool} {scope other : Scope} (same : SameVariables scope other)
    {mentions others : List Mention} (carries : MayCarry strict mentions others) :
    Option.Rel SameVariables (props.arguments? strict scope mentions) (props.arguments? strict other others) := by
  have given : Mention.argument? props strict other = Mention.argument? props strict scope := by
    funext mention
    exact (mention.argument?_congr same props strict).symm
  rcases carries with rfl | ⟨rfl, name, rfl⟩
  · have equal : props.arguments? strict other others = props.arguments? strict scope others := by
      unfold arguments?
      rw [given]
    rw [equal]
    cases props.arguments? strict scope others with
    | none => exact .none
    | some arguments => exact .some (.refl arguments)
  · have passed := argument?_scopeMention named false name other
    rw [given] at passed
    unfold arguments?
    rw [given, List.mapM_cons, passed]
    cases mentions.mapM (Mention.argument? props false scope) with
    | none => exact .none
    | some given =>
      apply Option.Rel.some
      apply withZeros_congr named
      intro other identifier
      have different : other ≠ Component.scopeIdFor name := by
        rintro rfl
        rw [Component.not_isIdentifier_scopeIdFor] at identifier
        cases identifier
      exact (Bindings.get?_ofList_cons different (.string []) given).symm

end Props

/-! ### Success of meanings -/

/-- Whether a component stands for something in one place, whatever its fills, exactly when it does in another. -/
def StandAlike (first second : Bindings Tree → Option Tree) : Prop :=
  ∃ stands : Bool, (∀ fills, (first fills).isSome = stands) ∧ ∀ fills, (second fills).isSome = stands

theorem StandAlike.of_eq_none {first second : Bindings Tree → Option Tree} (here : ∀ fills, first fills = none)
    (there : ∀ fills, second fills = none) : StandAlike first second :=
  ⟨false, fun fills => by rw [here]; rfl, fun fills => by rw [there]; rfl⟩

theorem StandAlike.of_isSome_eq {first second : Bindings Tree → Option Tree}
    (same : ∀ fills fills', (first fills).isSome = (second fills').isSome) : StandAlike first second :=
  ⟨(first []).isSome, fun fills => (same fills []).trans (same [] []).symm, fun fills => (same [] fills).symm⟩

namespace Tree

variable {expand : Expander} {scope : Scope} {slots : Bindings Tree}

theorem isSome_both {α β γ : Type} (first : Option α) (second : Option β) (make : α → β → γ) :
    (first.bind fun one => second.bind fun two => some (make one two)).isSome = (first.isSome && second.isSome) := by
  cases first <;> cases second <;> rfl

theorem isSome_meaning_text (words : Text) (rest : Tree) :
    ((text words rest).meaning expand scope slots).isSome = (rest.meaning expand scope slots).isSome :=
  isSome_both (some ()) _ fun _ => text words

theorem isSome_meaning_placeholder (inner : Text) (rest : Tree) :
    ((placeholder inner rest).meaning expand scope slots).isSome =
      ((Expression.evaluate inner scope).toOption.isSome && (rest.meaning expand scope slots).isSome) := by
  have shown : ((Expression.evaluate inner scope).toOption.map fun value => text value.render done).isSome =
      (Expression.evaluate inner scope).toOption.isSome := Option.isSome_map
  rw [← shown]
  exact isSome_both _ _ append

theorem isSome_meaning_slot (name : Text) (rest : Tree) :
    ((slot name rest).meaning expand scope slots).isSome = (rest.meaning expand scope slots).isSome :=
  isSome_both (some ((slots.get? name).getD done)) _ append

theorem isSome_meaning_element (name : Text) (mentions : List Mention) (body rest : Tree) :
    ((element name mentions body rest).meaning expand scope slots).isSome =
      ((body.meaning expand scope slots).isSome && (rest.meaning expand scope slots).isSome) :=
  isSome_both _ _ (element name mentions)

theorem isSome_meaning_fill (name : Text) (body rest : Tree) :
    ((fill name body rest).meaning expand scope slots).isSome =
      ((body.meaning expand scope slots).isSome && (rest.meaning expand scope slots).isSome) :=
  isSome_both _ _ (fill name)

/-- The tag of a component means something when its children do, the component stands for something and what follows
means something. -/
theorem isSome_meaning_component {name : Text} {mentions : List Mention} {stands : Bool}
    (standing : ∀ fills, (expand name mentions scope fills).isSome = stands) (closed : Bool) (children rest : Tree) :
    ((component name mentions closed children rest).meaning expand scope slots).isSome =
      ((children.meaning expand scope slots).isSome && (stands && (rest.meaning expand scope slots).isSome)) := by
  unfold meaning
  rw [replace]
  cases children.replace (.meaning expand scope slots) with
  | none => rfl
  | some filled =>
    rw [← standing (Bindings.ofList filled.fills)]
    exact isSome_both _ _ append

/-- Whether a tree means something depends on the variables and on which components stand for something, and not on
the fills. -/
theorem isSome_meaning_congr {other : Expander} {scope' : Scope} {slots' : Bindings Tree}
    (same : SameVariables scope scope') {tree : Tree}
    (standing : ∀ name ∈ tree.components, ∀ mentions,
      StandAlike (expand name mentions scope) (other name mentions scope')) :
    (tree.meaning expand scope slots).isSome = (tree.meaning other scope' slots').isSome := by
  induction tree with
  | done => rfl
  | text words rest ih =>
    rw [isSome_meaning_text, isSome_meaning_text, ih standing]
  | placeholder inner rest ih =>
    rw [isSome_meaning_placeholder, isSome_meaning_placeholder, Expression.evaluate_congr same, ih standing]
  | slot name rest ih =>
    rw [isSome_meaning_slot, isSome_meaning_slot, ih standing]
  | element name mentions body rest ihBody ih =>
    rw [isSome_meaning_element, isSome_meaning_element,
      ihBody fun name member => standing name (List.mem_append_left _ member),
      ih fun name member => standing name (List.mem_append_right _ member)]
  | fill name body rest ihBody ih =>
    rw [isSome_meaning_fill, isSome_meaning_fill,
      ihBody fun name member => standing name (List.mem_append_left _ member),
      ih fun name member => standing name (List.mem_append_right _ member)]
  | component name mentions closed children rest ihChildren ih =>
    obtain ⟨stands, here, there⟩ := standing name List.mem_cons_self mentions
    rw [isSome_meaning_component here, isSome_meaning_component there,
      ihChildren fun name member => standing name (List.mem_cons_of_mem _ (List.mem_append_left _ member)),
      ih fun name member => standing name (List.mem_cons_of_mem _ (List.mem_append_right _ member))]

end Tree

/-! ### Components under another component's tag -/

/-- Whether the root of a component is another component's tag. -/
def Outline.wraps (outline : Outline) : Bool := isPascalCase outline.root.name

namespace Collection

variable {collection : Collection}

/-- What markup with components of these names uses, also through the templates of other components. -/
inductive Uses (collection : Collection) (names : List Text) : Text → Prop
  | named {name : Text} (member : name ∈ names) : collection.Uses names name
  | within {outer name : Text} {outline : Outline} (used : collection.Uses names outer)
      (found : collection.find? outer = some outline) (member : name ∈ outline.root.tree.components) :
      collection.Uses names name

/-- Whether a compilation takes the scope attribute on every component that markup uses. -/
def TakesScope (collection : Collection) (strict : Bool) (names : List Text) : Prop :=
  strict = true → ∀ name outline, collection.Uses names name → collection.find? name = some outline →
    outline.wraps = false

theorem Uses.trans {names others : List Text} {name : Text} (used : collection.Uses others name)
    (every : ∀ other ∈ others, collection.Uses names other) : collection.Uses names name := by
  induction used with
  | named member => exact every _ member
  | within _ found member ih => exact .within ih found member

theorem TakesScope.of_uses {strict : Bool} {names others : List Text} (takes : collection.TakesScope strict names)
    (every : ∀ other ∈ others, collection.Uses names other) : collection.TakesScope strict others :=
  fun isStrict name outline used found => takes isStrict name outline (used.trans every) found

theorem expand_of_find? {name : Text} {outline : Outline} (found : collection.find? name = some outline)
    (addScope strict : Bool) (depth : Nat) (mentions : List Mention) (scope : Scope) (fills : Bindings Tree) :
    (collection.catalogue addScope).expand strict (depth + 1) name mentions scope fills =
      (outline.props.arguments? strict scope mentions).bind fun arguments =>
        (outline.template addScope).meaning ((collection.catalogue addScope).expand strict depth) arguments fills := by
  rw [Catalogue.expand_succ, catalogue_of_find? found]
  rfl

theorem expand_of_missing {name : Text} (missing : collection.find? name = none) (addScope strict : Bool) (depth : Nat)
    (mentions : List Mention) (scope : Scope) (fills : Bindings Tree) :
    (collection.catalogue addScope).expand strict (depth + 1) name mentions scope fills = none := by
  rw [Catalogue.expand_succ, catalogue_of_missing missing]
  rfl

/-- A template means something with the scope attribute when it does without. -/
theorem isSome_template_scoped {outline : Outline} {strict : Bool} (lax : outline.wraps = true → strict = false)
    {expand expand' : Expander} {scope scope' : Scope} (same : SameVariables scope scope')
    (standing : ∀ inner ∈ outline.root.tree.components, ∀ mentions others, MayCarry strict mentions others →
      StandAlike (expand inner mentions scope) (expand' inner others scope')) (fills fills' : Bindings Tree) :
    ((outline.template false).meaning expand scope fills).isSome =
      ((outline.template true).meaning expand' scope' fills').isSome := by
  have body : (outline.root.body.meaning expand scope fills).isSome =
      (outline.root.body.meaning expand' scope' fills').isSome :=
    Tree.isSome_meaning_congr same fun inner member mentions =>
      standing inner (Root.mem_components_tree member) mentions mentions (.inl rfl)
  change (outline.root.tree.meaning expand scope fills).isSome =
    ((outline.root.mark (scopeMention outline.name)).tree.meaning expand' scope' fills').isSome
  by_cases wraps : outline.wraps = true
  · have tag := Root.tree_of_isPascalCase wraps
    obtain ⟨stands, here, there⟩ := standing outline.root.name (by rw [tag]; exact List.mem_cons_self)
      outline.root.mentions _ (.inr ⟨lax wraps, outline.name, rfl⟩)
    rw [tag, Root.tree_mark_of_isPascalCase wraps, Tree.isSome_meaning_component here,
      Tree.isSome_meaning_component there, body]
    rfl
  · rw [Root.tree_of_not_isPascalCase wraps, Root.tree_mark_of_not_isPascalCase wraps, Tree.isSome_meaning_element,
      Tree.isSome_meaning_element, body]
    rfl

/-- A component stands for something with scope attributes when it does without. -/
theorem standAlike_expand {strict : Bool} {depth : Nat} {name : Text} (takes : collection.TakesScope strict [name])
    {scope other : Scope} (same : SameVariables scope other) {mentions others : List Mention}
    (carries : MayCarry strict mentions others) :
    StandAlike ((collection.catalogue false).expand strict depth name mentions scope)
      ((collection.catalogue true).expand strict depth name others other) := by
  induction depth generalizing name scope other mentions others with
  | zero => exact .of_eq_none (fun _ => rfl) fun _ => rfl
  | succ depth ih =>
    cases found : collection.find? name with
    | none =>
      exact .of_eq_none (expand_of_missing found false strict depth mentions scope)
        (expand_of_missing found true strict depth others other)
    | some outline =>
      have passed := Props.arguments?_rel (Outline.isNamed_props (isSound_of_find? found)) same carries
      have here := expand_of_find? found false strict depth mentions scope
      have there := expand_of_find? found true strict depth others other
      generalize outline.props.arguments? strict scope mentions = given at passed here
      generalize outline.props.arguments? strict other others = given' at passed there
      cases passed with
      | none => exact .of_eq_none here there
      | some same =>
        have lax : outline.wraps = true → strict = false := by
          intro wraps
          by_contra isStrict
          have plain := takes (Bool.eq_true_of_not_eq_false isStrict) name outline (.named List.mem_cons_self) found
          rw [wraps] at plain
          cases plain
        refine .of_isSome_eq fun fills fills' => ?_
        rw [here, there, Option.bind_some, Option.bind_some]
        refine isSome_template_scoped lax same (fun inner member mentions others carries => ?_) fills fills'
        refine ih (takes.of_uses fun used listed => ?_) same carries
        rw [List.mem_singleton.1 listed]
        exact .within (.named List.mem_cons_self) found member

theorem expand_scopeMention (addScope : Bool) (depth : Nat) (name owner : Text) (mentions : List Mention)
    (scope : Scope) (fills : Bindings Tree) :
    (collection.catalogue addScope).expand true depth name (scopeMention owner :: mentions) scope fills = none := by
  cases depth with
  | zero => rfl
  | succ depth =>
    cases found : collection.find? name with
    | none => exact expand_of_missing found addScope true depth _ scope fills
    | some outline =>
      have named := Outline.isNamed_props (isSound_of_find? found)
      rw [expand_of_find? found, Props.arguments?_scopeMention named]
      rfl

/-- Where everything is strict, nothing under another component's tag stands for something with its scope attribute. -/
theorem wraps_of_expand {depth : Nat} {name : Text} {outline : Outline} (found : collection.find? name = some outline)
    {mentions : List Mention} {scope : Scope} {fills : Bindings Tree} {tree : Tree}
    (expanded : (collection.catalogue true).expand true depth name mentions scope fills = some tree) :
    outline.wraps = false := by
  cases depth with
  | zero => cases expanded
  | succ depth =>
    rw [expand_of_find? found] at expanded
    obtain ⟨arguments, -, means⟩ := Option.bind_eq_some_iff.1 expanded
    by_contra wraps
    have pascal : isPascalCase outline.root.name = true := Bool.eq_true_of_not_eq_false wraps
    have tag : outline.template true = _ := Root.tree_mark_of_isPascalCase pascal (scopeMention outline.name)
    have nothing := @Tree.isSome_meaning_component ((collection.catalogue true).expand true depth) arguments fills
      outline.root.name (scopeMention outline.name :: outline.root.mentions) false
      (fun fills => by rw [expand_scopeMention]; rfl) outline.root.closed outline.root.body .done
    rw [← tag, means, Bool.false_and, Bool.and_false] at nothing
    cases nothing

/-- Whether a component stands for something at some depth, with some arguments and fills. -/
def Stands (collection : Collection) (strict addScope : Bool) (name : Text) : Prop :=
  ∃ depth mentions scope fills tree,
    (collection.catalogue addScope).expand strict depth name mentions scope fills = some tree

theorem stands_of_meaning {strict addScope : Bool} {depth : Nat} {scope : Scope} {slots : Bindings Tree}
    {tree result : Tree}
    (means : tree.meaning ((collection.catalogue addScope).expand strict depth) scope slots = some result) :
    ∀ name ∈ tree.components, collection.Stands strict addScope name :=
  Expander.expands_of_meaning
    (fun _ mentions scope fills tree expanded => ⟨depth, mentions, scope, fills, tree, expanded⟩) means

/-- All that a page uses stands for something when the page means something. -/
theorem stands_of_uses {strict addScope : Bool} {names : List Text}
    (every : ∀ name ∈ names, collection.Stands strict addScope name) {name : Text}
    (used : collection.Uses names name) : collection.Stands strict addScope name := by
  induction used with
  | named member => exact every _ member
  | @within outer name outline _ found member ih =>
    obtain ⟨depth, mentions, scope, fills, tree, expanded⟩ := ih
    cases depth with
    | zero => cases expanded
    | succ depth =>
      rw [expand_of_find? found] at expanded
      obtain ⟨arguments, -, means⟩ := Option.bind_eq_some_iff.1 expanded
      rw [← outline.components_template addScope] at member
      exact stands_of_meaning means name member

/-- Scope attributes keep the meaning of a page unless the compilation is strict and the page uses a component whose
root is another component's tag. -/
theorem isSome_meaning_scoped (collection : Collection) (strict : Bool) (depth : Nat) (scope : Scope) (page : Tree) :
    (page.meaning ((collection.catalogue true).expand strict depth) scope []).isSome ↔
      (page.meaning ((collection.catalogue false).expand strict depth) scope []).isSome ∧
        collection.TakesScope strict page.components := by
  have equal (takes : collection.TakesScope strict page.components) :
      (page.meaning ((collection.catalogue false).expand strict depth) scope []).isSome =
        (page.meaning ((collection.catalogue true).expand strict depth) scope []).isSome := by
    refine Tree.isSome_meaning_congr (.refl scope) fun name member mentions => ?_
    refine standAlike_expand (takes.of_uses fun used listed => ?_) (.refl scope) (.inl rfl)
    rw [List.mem_singleton.1 listed]
    exact .named member
  constructor
  · intro means
    obtain ⟨result, reached⟩ := Option.isSome_iff_exists.1 means
    have takes : collection.TakesScope strict page.components := by
      rintro rfl name outline used found
      obtain ⟨_, _, _, _, _, expanded⟩ := stands_of_uses (stands_of_meaning reached) used
      exact wraps_of_expand found expanded
    exact ⟨(equal takes).trans means, takes⟩
  · rintro ⟨means, takes⟩
    exact (equal takes).symm.trans means

end Collection

/-! ### Compiling with and without scope attributes -/

/-- A page compiles to what it means with the components of a collection. -/
theorem Collection.toOption_compileFresh (collection : Collection) (strict addScope : Bool) (texts : ScriptTexts)
    (limit : Int) {page : Tree} (sound : page.isSound .page false = true) {scope : Scope}
    (clean : isCleanScope scope = true) :
    (compileFresh { registry := ⟨collection.outlines.map (Outline.component · addScope)⟩, strict, texts } limit scope
      page.print).1.toOption =
        (page.meaning ((collection.catalogue addScope).expand strict limit.toNat) scope []).map Tree.print := by
  let workshop : Workshop :=
    { registry := ⟨collection.outlines.map (Outline.component · addScope)⟩, strict, texts }
  have registered (name : Text) :
      workshop.registry.find? name = (collection.catalogue addScope name).map Blueprint.component := by
    rw [collection.map_component_catalogue]
    exact collection.find?_ofSources addScope name
  have means : Expansion.Means workshop (collection.catalogue addScope) (ExpansionStack.empty limit) scope page.items :=
    Expansion.means_items registered clean (Tree.isSound_items sound) (fun outer member => nomatch member)
  have expanded := means [] (by simp)
  rw [List.nil_append, Tree.pieces_items, ← Tree.meaning_items _ scope sound, Option.map_map] at expanded
  have pieces := Tree.isSound_pieces sound
  refine gives_compilePage (Signal.lower_printPieces pieces scope) (Fetch.next?_printPieces pieces)
    (Conditional.settle_printPieces pieces scope) expanded ?_ {}
  intro result reached
  obtain ⟨tree, meaning, rfl⟩ := Option.map_eq_some_iff.1 reached
  have plain := Tree.isSound_meaning ((collection.catalogue addScope).expands strict limit.toNat) clean
    (by simp [Bindings.ArePlain]) sound meaning
  have treePieces := Tree.isSound_pieces plain
  exact ⟨Fetch.next?_printPieces treePieces, isReserved_of_mem_printPieces treePieces⟩

/-- With scope attributes a page compiles exactly when it compiles without and, in a strict compilation, no component
that it uses has another component's tag for its root. -/
theorem compileFresh_scoped (collection : Collection) (strict : Bool) (texts : ScriptTexts) (limit : Int)
    {page : Tree} (sound : page.isSound .page false = true) {scope : Scope} (clean : isCleanScope scope = true) :
    ∃ plain marked, Registry.ofSources collection.sources false = .ok plain ∧
      Registry.ofSources collection.sources true = .ok marked ∧
        ((compileFresh { registry := marked, strict, texts } limit scope page.print).1.toOption.isSome ↔
          (compileFresh { registry := plain, strict, texts } limit scope page.print).1.toOption.isSome ∧
            collection.TakesScope strict page.components) := by
  refine ⟨_, _, collection.ofSources_eq_ok false, collection.ofSources_eq_ok true, ?_⟩
  rw [collection.toOption_compileFresh strict true texts limit sound clean,
    collection.toOption_compileFresh strict false texts limit sound clean, Option.isSome_map, Option.isSome_map]
  exact collection.isSome_meaning_scoped strict limit.toNat scope page

/-- A component under another component's tag compiles with its scope attribute, unless everything is strict. -/
theorem compileFresh_scoped_nested :
    ∃ collection : Collection, ∃ page : Tree, ∃ plain marked,
      collection.sources = ([("Outer", "<Inner props='' />"), ("Inner", "<b props=''>hi</b>")] : List (Text × Text)) ∧
        page.print = "<Outer />" ∧ Registry.ofSources collection.sources false = .ok plain ∧
          Registry.ofSources collection.sources true = .ok marked ∧
            (∀ strict, (compileFresh { registry := plain, strict } 100 [] page.print).1.toOption = some "<b>hi</b>") ∧
              (compileFresh { registry := marked, strict := false } 100 [] page.print).1.toOption.isSome ∧
                (compileFresh { registry := marked, strict := true } 100 [] page.print).1.toOption = none := by
  let outer : Outline := {
    name := "Outer", quote := '\'', declaration := [], props := [],
    root := { name := "Inner", mentions := [], closed := true, body := .done } }
  let inner : Outline := {
    name := "Inner", quote := '\'', declaration := [], props := [],
    root := { name := "b", mentions := [], body := .text "hi" .done } }
  let collection : Collection :=
    { outlines := [outer, inner], sound := by decide +kernel, distinct := by decide +kernel }
  let page : Tree := .component "Outer" [] true .done .done
  have sound : page.isSound .page false = true := by decide +kernel
  have clean : isCleanScope [] = true := rfl
  obtain ⟨plain, marked, loaded, loadedMarked, lax⟩ := compileFresh_scoped collection false {} 100 sound clean
  obtain ⟨plain', marked', loaded', loadedMarked', strict⟩ := compileFresh_scoped collection true {} 100 sound clean
  obtain rfl := Except.ok.inj (loaded.symm.trans loaded')
  obtain rfl := Except.ok.inj (loadedMarked.symm.trans loadedMarked')
  have compiled (strict : Bool) :
      (compileFresh { registry := plain, strict } 100 [] page.print).1.toOption = some "<b>hi</b>" := by
    rw [Except.ok.inj (loaded.symm.trans (collection.ofSources_eq_ok false)),
      collection.toOption_compileFresh strict false {} 100 sound clean]
    cases strict <;> decide +kernel
  refine ⟨collection, page, plain, marked, by decide +kernel, by decide +kernel, loaded, loadedMarked, compiled, ?_, ?_⟩
  · rw [lax, compiled]
    exact ⟨rfl, fun isStrict => nomatch isStrict⟩
  · rw [← Option.not_isSome_iff_eq_none, strict]
    rintro ⟨-, takes⟩
    have plainRoot := takes rfl "Outer" outer (.named List.mem_cons_self) rfl
    cases plainRoot

end ComponentPages
