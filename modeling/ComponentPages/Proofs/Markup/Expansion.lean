import ComponentPages.Proofs.Markup.Argument
import ComponentPages.Proofs.Markup.Catalogue
import ComponentPages.Proofs.Markup.Inert

/-!
Expansion gives what markup means. The passes over the text of a page find exactly the placeholders, slots, fills
and components of its tree, and the stack of components being expanded stands for the depth that is left.
-/
namespace ComponentPages

open Compile (Gives)

namespace Placeholder

theorem toOption_substitute {pieces : List Piece} (sound : ∀ piece ∈ pieces, piece.isSound = true) (scope : Scope) :
    (substitute (printPieces pieces) scope).toOption =
      (rewrite (fun piece => (piece.fill scope).toOption.map fun filled => [filled]) pieces).map printPieces := by
  rw [substitute_printPieces sound, toOption_map, toOption_mapM]
  congr 1
  clear sound
  induction pieces with
  | nil => rfl
  | cons piece pieces ih =>
    rw [List.mapM_cons, ih, rewrite]
    cases (piece.fill scope).toOption with
    | none => rfl
    | some filled => cases rewrite (fun piece => (piece.fill scope).toOption.map fun filled => [filled]) pieces <;> rfl

end Placeholder

namespace Expansion

/-! ### A template with its arguments and fills -/

/-- The template of a component with its slots and placeholders filled. -/
def instantiated (blueprint : Blueprint) (arguments : Scope) (fills : Bindings Tree) : Option Tree :=
  (blueprint.template.replace (.slots fills)).bind (Tree.replace (.placeholders arguments))

theorem isSound_instantiated {blueprint : Blueprint} {arguments : Scope} (clean : isCleanScope arguments = true)
    {fills : Bindings Tree} (plain : fills.ArePlain) {tree : Tree}
    (made : instantiated blueprint arguments fills = some tree) : tree.isSound .page false = true := by
  obtain ⟨filled, injected, substituted⟩ := Option.bind_eq_some_iff.1 made
  exact Tree.isSound_placeholders clean (Tree.isSound_slots plain blueprint.sound injected) substituted

theorem components_instantiated {blueprint : Blueprint} {arguments : Scope} {fills : Bindings Tree}
    (plain : fills.ArePlain) {tree : Tree} (made : instantiated blueprint arguments fills = some tree) :
    tree.components = blueprint.template.components := by
  obtain ⟨filled, injected, substituted⟩ := Option.bind_eq_some_iff.1 made
  have kept : filled.components = blueprint.template.components := by
    refine Tree.components_replace ?_ (fun _ _ _ _ => rfl) ?_ injected
    · intro inner tree replaced
      rw [← Option.some.inj replaced]
      rfl
    · intro name tree replaced
      rw [← Option.some.inj replaced]
      exact Tree.components_of_plain (Tree.isSound_getD plain name)
  have stays : tree.components = filled.components := by
    refine Tree.components_replace ?_ (fun _ _ _ _ => rfl) ?_ substituted
    · intro inner tree replaced
      obtain ⟨value, -, rfl⟩ := Option.map_eq_some_iff.1 replaced
      rfl
    · intro name tree replaced
      rw [← Option.some.inj replaced]
      rfl
  rw [stays, kept]

theorem gives_instantiate (workshop : Workshop) (blueprint : Blueprint) {arguments : Scope}
    (clean : isCleanScope arguments = true) {fills : Bindings Tree} (plain : fills.ArePlain) :
    (instantiate workshop blueprint.component arguments (fills.mapValues Tree.print)).Gives
      ((instantiated blueprint arguments fills).map Tree.print) := by
  obtain ⟨filled, injected⟩ := Tree.exists_replace_slots fills blueprint.template
  have filledSound := Tree.isSound_slots plain blueprint.sound injected
  have filledPieces := Tree.isSound_pieces filledSound
  have lowered : Signal.lower blueprint.component.template arguments = pure blueprint.template.print := by
    rw [blueprint.printed]
    exact Signal.lower_printPieces (Tree.isSound_pieces blueprint.sound) arguments
  have substituted : (Placeholder.substitute filled.print arguments).toOption =
      (filled.replace (.placeholders arguments)).map Tree.print := by
    have placeholders : (filled.replace (.placeholders arguments)).map Tree.pieces =
        rewrite (fun piece => (piece.fill arguments).toOption.map fun value => [value]) filled.pieces := by
      refine Tree.pieces_replace ?_ ?_ ?_ (fun _ _ _ _ => rfl) filledSound
      · intro piece _ other
        cases piece with
        | placeholder inner => cases other
        | text | opening | closing => rfl
      · intro inner
        simp only [Replacement.placeholders, Piece.fill]
        cases Expression.evaluate inner arguments <;> rfl
      · intro name
        rfl
    rw [Tree.print, Placeholder.toOption_substitute filledPieces, ← placeholders, Option.map_map]
    rfl
  have reached : instantiated blueprint arguments fills = filled.replace (.placeholders arguments) := by
    rw [instantiated, injected, Option.bind_some]
  rw [instantiate, lowered, pure_bind, Slot.inject_print blueprint.sound injected, reached]
  refine Gives.bind_some (gives_mask (Fetch.next?_printPieces filledPieces)) ?_
  have settled := Conditional.settle_printPieces filledPieces arguments
  change Conditional.settle filled.print arguments = .ok filled.print at settled
  change (do
    let settled ← Compile.lift (Conditional.settle filled.print arguments)
    let substituted ← Compile.lift (Placeholder.substitute settled arguments)
    Fetch.lower workshop.texts (Signal.resolve substituted)).Gives _
  rw [settled, Compile.lift_ok, pure_bind]
  have given := Compile.gives_lift (Placeholder.substitute filled.print arguments)
  rw [substituted] at given
  cases made : filled.replace (.placeholders arguments) with
  | none =>
    rw [made] at given
    exact Gives.bind_none given _
  | some tree =>
    rw [made] at given
    have treePieces := Tree.isSound_pieces (Tree.isSound_placeholders clean filledSound made)
    exact Gives.bind_some given
      (gives_fetched (Fetch.next?_printPieces treePieces) (isReserved_of_mem_printPieces treePieces) workshop.texts)

/-! ### The stack and the depth that is left -/

/-- Fewer components nest below each of the names than below any component that is being expanded. -/
def Under (catalogue : Catalogue) (stack names : List Text) : Prop :=
  ∀ outer ∈ stack, ∀ depth, catalogue.Fits depth outer → ∃ less < depth, ∀ name ∈ names, catalogue.Fits less name

theorem Under.mono {catalogue : Catalogue} {stack names others : List Text} (under : Under catalogue stack names)
    (subset : ∀ name ∈ others, name ∈ names) : Under catalogue stack others := by
  intro outer member depth fits
  obtain ⟨less, below, every⟩ := under outer member depth fits
  exact ⟨less, below, fun name other => every name (subset name other)⟩

/-- A component that is being expanded already fits no depth. -/
theorem Under.not_fits {catalogue : Catalogue} {stack names : List Text} (under : Under catalogue stack names) {name : Text}
    (entered : name ∈ stack) (named : name ∈ names) (depth : Nat) : ¬catalogue.Fits depth name := by
  induction depth using Nat.strongRecOn with
  | ind depth ih =>
    intro fits
    obtain ⟨less, below, every⟩ := under name entered depth fits
    exact ih less below (every name named)

theorem exists_of_fits {catalogue : Catalogue} {depth : Nat} {name : Text} {blueprint : Blueprint}
    (found : catalogue name = some blueprint) (fits : catalogue.Fits depth name) :
    ∃ less < depth, ∀ other ∈ blueprint.template.components, catalogue.Fits less other := by
  cases depth with
  | zero => cases fits
  | succ depth =>
    obtain ⟨other, found', below⟩ := fits
    rw [found] at found'
    cases found'
    exact ⟨depth, Nat.lt_succ_self depth, below⟩

theorem Under.enter {catalogue : Catalogue} {stack names : List Text} (under : Under catalogue stack names)
    {name : Text} (named : name ∈ names) {blueprint : Blueprint} (found : catalogue name = some blueprint) :
    Under catalogue (stack ++ [name]) blueprint.template.components := by
  intro outer member depth fits
  rcases List.mem_append.1 member with inStack | last
  · obtain ⟨less, below, every⟩ := under outer inStack depth fits
    obtain ⟨least, lower, inBody⟩ := exists_of_fits found (every name named)
    exact ⟨least, Nat.lt_trans lower below, inBody⟩
  · rw [List.mem_singleton.1 last] at fits
    exact exists_of_fits found fits

theorem enter_cases {limit : Int} (stack : ExpansionStack limit) (name : Text) :
    (∃ failure, stack.enter name = .error failure ∧ (name ∈ stack.names ∨ stack.room = 0)) ∨
      ∃ entered, stack.enter name = .ok entered ∧ entered.names = stack.names ++ [name] ∧
        stack.room = entered.room + 1 := by
  unfold ExpansionStack.enter
  split
  · next member => exact .inl ⟨_, rfl, .inl member⟩
  · split
    · next below =>
      refine .inr ⟨_, rfl, rfl, ?_⟩
      simp only [ExpansionStack.room, List.length_append, List.length_singleton]
      omega
    · next full =>
      refine .inl ⟨_, rfl, .inr ?_⟩
      simp only [ExpansionStack.room]
      omega

/-! ### Expansion of items -/

section Items

variable {limit : Int} {workshop : Workshop} {catalogue : Catalogue}

/-- Behind any sound pieces the items expand to what they mean when components stand for this. -/
def MeansBy (expand : Expander) (workshop : Workshop) (stack : ExpansionStack limit) (scope : Scope)
    (items : List Item) : Prop :=
  ∀ before : List Piece, (∀ piece ∈ before, piece.isSound = true) →
    (expandFrom workshop stack scope (printPieces (before ++ items.flatMap Item.pieces)) (printPieces before).length).Gives
      ((rewrite (Item.meaning expand scope) items).map printPieces)

/-- What components stand for when the room of the stack is left. -/
abbrev standing (workshop : Workshop) (catalogue : Catalogue) (stack : ExpansionStack limit) : Expander :=
  catalogue.expand workshop.strict stack.room

/-- Behind any sound pieces the items expand to what they mean. -/
abbrev Means (workshop : Workshop) (catalogue : Catalogue) (stack : ExpansionStack limit) (scope : Scope)
    (items : List Item) : Prop :=
  MeansBy (standing workshop catalogue stack) workshop stack scope items

theorem toOption_substitute_plain {plains : List Piece} (sound : ∀ piece ∈ plains, piece.isSound = true)
    (expand : Expander) (scope : Scope) :
    (Placeholder.substitute (printPieces plains) scope).toOption =
      (rewrite (Item.meaning expand scope) (plains.map Item.plain)).map printPieces := by
  rw [Placeholder.toOption_substitute sound, rewrite_map]
  rfl

theorem flatMap_plain (plains : List Piece) : (plains.map Item.plain).flatMap Item.pieces = plains := by
  rw [List.flatMap_map]
  exact List.flatMap_singleton' plains

theorem means_plain {plains : List Piece} (sound : ∀ piece ∈ plains, piece.isSound = true)
    (plain : ∀ piece ∈ plains, piece.component? = none) (stack : ExpansionStack limit) (scope : Scope) :
    Means workshop catalogue stack scope (plains.map Item.plain) := by
  intro before beforeSound
  have allSound : ∀ piece ∈ before ++ plains, piece.isSound = true := by
    intro piece member
    rcases List.mem_append.1 member with early | late
    · exact beforeSound piece early
    · exact sound piece late
  rw [flatMap_plain, expandFrom_of_none (ComponentTag.next?_of_plain allSound plain)]
  refine Gives.note ?_ _
  rw [printPieces_append, List.drop_left, ← toOption_substitute_plain sound]
  exact Compile.gives_lift _

/-- The children of a tag expand to what its fills mean. -/
theorem gives_children {stack : ExpansionStack limit} {scope : Scope} {fills : Tree}
    (sound : fills.isSound .page true = true) (agrees : Means workshop catalogue stack scope fills.items) :
    (expandFrom workshop stack scope fills.print 0).Gives
      ((fills.meaning (standing workshop catalogue stack) scope []).map Tree.print) := by
  have given := agrees [] (by simp)
  rw [List.nil_append, Tree.pieces_items, ← Tree.meaning_items _ scope sound, Option.map_map] at given
  exact given

/-- The instance of a component expands to what its template means. -/
theorem gives_expanded {entered : ExpansionStack limit} {blueprint : Blueprint} {arguments : Scope}
    (clean : isCleanScope arguments = true) {fills : Bindings Tree} (plain : fills.ArePlain) {tree : Tree}
    (made : instantiated blueprint arguments fills = some tree)
    (agrees : Means workshop catalogue entered arguments tree.items) :
    (expandFrom workshop entered arguments tree.print 0).Gives
      ((blueprint.template.meaning (standing workshop catalogue entered) arguments fills).map
        Tree.print) := by
  have given := agrees [] (by simp)
  have meaning := Tree.meaning_filled plain (standing workshop catalogue entered) arguments
    blueprint.template
  rw [← instantiated, made, Option.bind_some] at meaning
  rw [List.nil_append, Tree.pieces_items, ← Tree.meaning_items _ arguments (isSound_instantiated clean plain made),
    Option.map_map, meaning] at given
  exact given

/-- A component that was entered expands to what its template means. -/
theorem gives_instance {entered : ExpansionStack limit} {blueprint : Blueprint} {arguments : Scope}
    (clean : isCleanScope arguments = true) {fills : Bindings Tree} (plain : fills.ArePlain)
    (agrees : ∀ tree, instantiated blueprint arguments fills = some tree →
      Means workshop catalogue entered arguments tree.items)
    (next : Text → Compile Text) (result? : Tree → Option Text) (behind : ∀ tree, (next tree.print).Gives (result? tree)) :
    Gives (do
      let instance_ ← instantiate workshop blueprint.component arguments (fills.mapValues Tree.print)
      let template ← Compile.lift (Conditional.settle instance_ arguments)
      let expanded ← expandFrom workshop entered arguments template 0
      next expanded)
        ((blueprint.template.meaning (standing workshop catalogue entered) arguments fills).bind
          result?) := by
  have given := gives_instantiate workshop blueprint clean plain
  cases made : instantiated blueprint arguments fills with
  | none =>
    have meaning := Tree.meaning_filled plain (standing workshop catalogue entered) arguments
      blueprint.template
    rw [← instantiated, made, Option.bind_none] at meaning
    rw [made] at given
    rw [← meaning]
    exact Gives.bind_none given _
  | some tree =>
    have treeSound := isSound_instantiated clean plain made
    have settled : Conditional.settle tree.print arguments = .ok tree.print :=
      Conditional.settle_printPieces (Tree.isSound_pieces treeSound) arguments
    rw [made] at given
    refine Gives.bind_some given ?_
    rw [settled, Compile.lift_ok, pure_bind]
    have expanded := gives_expanded clean plain made (agrees tree made)
    cases meaning : blueprint.template.meaning (standing workshop catalogue entered) arguments fills with
    | none =>
      rw [meaning] at expanded
      exact Gives.bind_none expanded _
    | some result =>
      rw [meaning] at expanded
      exact Gives.bind_some expanded (behind result)

theorem gives_arguments (component : Component) {mentions : List Mention}
    (sound : ∀ mention ∈ mentions, mention.isSound = true) (caller : Scope) :
    (arguments workshop component caller (Text.trim (mentions.flatMap Mention.print))).Gives
      (component.props.arguments? workshop.strict caller mentions) := by
  refine Gives.note ?_ _
  rw [← Argument.resolve_printed sound]
  exact Compile.gives_lift _

theorem rewrite_around (write : Item → Option (List Piece)) (plains rest : List Item) (item : Item) :
    rewrite write (plains ++ item :: rest) =
      (rewrite write plains).bind fun first => (write item).bind fun here => (rewrite write rest).map fun others =>
        first ++ here ++ others := by
  rw [rewrite_append, rewrite]
  cases rewrite write plains with
  | none => rfl
  | some first =>
    cases write item with
    | none => rfl
    | some here => cases rewrite write rest <;> simp

/-- What a component's tag stands for, one nesting further in. -/
theorem standing_of_enter {stack entered : ExpansionStack limit} (room : stack.room = entered.room + 1) {name : Text}
    {blueprint : Blueprint} (found : catalogue name = some blueprint) (mentions : List Mention) (scope : Scope)
    (fills : Bindings Tree) :
    standing workshop catalogue stack name mentions scope fills =
      (blueprint.component.props.arguments? workshop.strict scope mentions).bind fun arguments =>
        blueprint.template.meaning (standing workshop catalogue entered) arguments fills := by
  unfold standing
  rw [room, Catalogue.expand]
  dsimp only
  rw [found]
  rfl

theorem standing_of_missing {name : Text} (missing : catalogue name = none) (stack : ExpansionStack limit)
    (mentions : List Mention) (scope : Scope) (fills : Bindings Tree) :
    standing workshop catalogue stack name mentions scope fills = none := by
  unfold standing
  cases stack.room with
  | zero => rfl
  | succ depth =>
    rw [Catalogue.expand]
    dsimp only
    rw [missing]
    rfl

theorem standing_of_unpassed {name : Text} {blueprint : Blueprint} (found : catalogue name = some blueprint)
    {mentions : List Mention} {scope : Scope}
    (unpassed : blueprint.component.props.arguments? workshop.strict scope mentions = none)
    (stack : ExpansionStack limit) (fills : Bindings Tree) :
    standing workshop catalogue stack name mentions scope fills = none := by
  unfold standing
  cases stack.room with
  | zero => rfl
  | succ depth =>
    rw [Catalogue.expand]
    dsimp only
    rw [found, Option.bind_eq_bind, Option.bind_some, unpassed]
    rfl

/-- What cannot be entered stands for nothing. -/
theorem standing_of_error {stack : ExpansionStack limit} {name : Text} (under : Under catalogue stack.names [name])
    (refused : name ∈ stack.names ∨ stack.room = 0) (mentions : List Mention) (scope : Scope) (fills : Bindings Tree) :
    standing workshop catalogue stack name mentions scope fills = none := by
  cases expanded : standing workshop catalogue stack name mentions scope fills with
  | none => rfl
  | some tree =>
    have fits := Catalogue.fits_of_expand expanded
    rcases refused with member | full
    · exact absurd fits (under.not_fits member List.mem_cons_self _)
    · rw [full] at fits
      cases fits

theorem means_component (registered : ∀ name, workshop.registry.find? name =
      (catalogue name).map Blueprint.component)
    {stack : ExpansionStack limit} {scope : Scope} (clean : isCleanScope scope = true) {plains : List Piece}
    (plainsSound : ∀ piece ∈ plains, piece.isSound = true) (plain : ∀ piece ∈ plains, piece.component? = none)
    {name : Text} {mentions : List Mention} {closed : Bool} {fills : Tree}
    (sound : (Item.component name mentions closed fills).isSound = true) {rest : List Item}
    (restSound : ∀ item ∈ rest, item.isSound = true) (under : Under catalogue stack.names [name])
    (children : Means workshop catalogue stack scope fills.items)
    (later : Means workshop catalogue stack scope rest)
    (deeper : ∀ (entered : ExpansionStack limit) (blueprint : Blueprint) (arguments : Scope) (tree : Tree),
      stack.room = entered.room + 1 → entered.names = stack.names ++ [name] → catalogue name = some blueprint →
      isCleanScope arguments = true → tree.isSound .page false = true →
      tree.components = blueprint.template.components → Means workshop catalogue entered arguments tree.items) :
    Means workshop catalogue stack scope (plains.map Item.plain ++ .component name mentions closed fills :: rest) := by
  intro before beforeSound
  have itemPieces := Item.isSound_pieces sound
  simp only [Item.isSound, Tree.isComponentTag, Bool.and_eq_true, List.all_eq_true, Bool.or_eq_true,
    Bool.not_eq_true', decide_eq_true_eq] at sound
  obtain ⟨⟨⟨⟨pascal, -⟩, mentionsSound⟩, empty⟩, fillsSound⟩ := sound
  let meaning := Item.meaning (standing workshop catalogue stack) scope
  let element := ComponentTag.element name mentions closed fills.pieces
  let after := rest.flatMap Item.pieces
  have flat : (plains.map Item.plain ++ Item.component name mentions closed fills :: rest).flatMap Item.pieces =
      plains ++ (element ++ after) := by
    rw [List.flatMap_append, List.flatMap_cons, flatMap_plain]
    rfl
  have allSound : ∀ piece ∈ before ++ (plains ++ (element ++ after)), piece.isSound = true := by
    intro piece member
    simp only [List.mem_append] at member
    rcases member with early | inPlains | inElement | late
    · exact beforeSound piece early
    · exact plainsSound piece inPlains
    · exact itemPieces piece inElement
    · obtain ⟨item, listed, inItem⟩ := List.mem_flatMap.1 late
      exact Item.isSound_pieces (restSound item listed) piece inItem
  have found := ComponentTag.next?_of_element allSound plain pascal (Tree.balanced_pieces fills)
  have slice : Text.slice (printPieces (before ++ (plains ++ (element ++ after)))) (printPieces before).length
      (printPieces (before ++ plains)).length = printPieces plains := by
    have front : printPieces (before ++ (plains ++ (element ++ after))) =
        printPieces (before ++ plains) ++ printPieces (element ++ after) := by
      rw [← printPieces_append, List.append_assoc]
    rw [Text.slice, front, List.take_left, printPieces_append, List.drop_left]
  have printed : (if closed = true then [] else printPieces fills.pieces) = fills.print := by
    cases closed with
    | false => rfl
    | true => rw [empty.resolve_left (by simp)]; rfl
  rw [flat, expandFrom_of_tag found, rewrite_around]
  refine Gives.note ?_ _
  dsimp only
  rw [slice, printed]
  have fillsPieces := Tree.isSound_pieces fillsSound
  have settled : Conditional.settle fills.print scope = .ok fills.print :=
    Conditional.settle_printPieces fillsPieces scope
  have lost (nothing : ∀ fills, standing workshop catalogue stack name mentions scope fills = none) :
      Item.meaning (standing workshop catalogue stack) scope (.component name mentions closed fills) = none := by
    rw [Item.meaning]
    cases fills.meaning (standing workshop catalogue stack) scope [] with
    | none => rfl
    | some filled =>
      rw [Option.bind_eq_bind, Option.bind_some, nothing]
      rfl
  let next (first : List Piece) (expanded : Text) : Compile Text := do
    let others ← expandFrom workshop stack scope (printPieces (before ++ (plains ++ (element ++ after))))
      (printPieces (before ++ (plains ++ element))).length
    pure (printPieces first ++ expanded ++ others)
  let result? (first : List Piece) (tree : Tree) : Option Text :=
    (rewrite (Item.meaning (standing workshop catalogue stack) scope) rest).map fun others =>
      printPieces (first ++ tree.pieces ++ others)
  have behind (first : List Piece) (tree : Tree) : (next first tree.print).Gives (result? first tree) := by
    dsimp only [next, result?]
    have passed := later (before ++ (plains ++ element)) fun piece member => allSound piece (by
      simp only [List.mem_append] at member ⊢
      tauto)
    rw [List.append_assoc, List.append_assoc] at passed
    cases others : rewrite (Item.meaning (standing workshop catalogue stack) scope) rest with
    | none =>
      rw [others] at passed
      exact Gives.bind_none passed _
    | some others' =>
      rw [others] at passed
      refine Gives.bind_some passed ?_
      rw [Option.map_some, printPieces_append, printPieces_append]
      exact Compile.gives_pure _
  have given := Compile.gives_lift (Placeholder.substitute (printPieces plains) scope)
  rw [toOption_substitute_plain plainsSound (standing workshop catalogue stack)] at given
  cases front : rewrite (Item.meaning (standing workshop catalogue stack) scope) (plains.map Item.plain) with
  | none =>
    rw [front] at given
    exact Gives.bind_none given _
  | some first =>
    rw [front] at given
    refine Gives.bind_some given ?_
    rw [Option.bind_some, Registry.require, registered]
    cases known : catalogue name with
    | none =>
      rw [lost (standing_of_missing known stack mentions scope)]
      exact Gives.bind_none (Compile.gives_lift _) _
    | some blueprint =>
      have called : blueprint.component.name = name := by
        have found := registered name
        rw [known, Option.map_some] at found
        have same := List.find?_some found
        exact of_decide_eq_true same
      rw [Option.map_some]
      dsimp only
      rw [Compile.lift_ok, pure_bind]
      have passes := @gives_arguments workshop blueprint.component mentions mentionsSound scope
      cases passed : blueprint.component.props.arguments? workshop.strict scope mentions with
      | none =>
        rw [lost (standing_of_unpassed known passed stack)]
        rw [passed] at passes
        exact Gives.bind_none passes _
      | some arguments =>
        rw [passed] at passes
        refine Gives.bind_some passes (Gives.note ?_ _)
        rw [settled, Compile.lift_ok, pure_bind]
        have inside := gives_children fillsSound children
        cases means : fills.meaning (standing workshop catalogue stack) scope [] with
        | none =>
          have nothing : Item.meaning (standing workshop catalogue stack) scope
              (.component name mentions closed fills) = none := by
            rw [Item.meaning, means]
            rfl
          rw [nothing]
          rw [means] at inside
          exact Gives.bind_none inside _
        | some filled =>
          rw [means] at inside
          refine Gives.bind_some inside (Gives.note ?_ _)
          have filledPlain : filled.isSound .plain true = true :=
            Tree.isSound_meaning (catalogue.expands workshop.strict stack.room) clean (by simp [Bindings.ArePlain])
              fillsSound means
          have fillsPlain := Tree.arePlain_ofList_fills filledPlain
          change Gives (Compile.lift (stack.enter blueprint.component.name) >>= _) _
          rw [called]
          rcases enter_cases stack name with ⟨failure, refused, why⟩ | ⟨entered, enters, names, room⟩
          · rw [refused, lost (standing_of_error under why mentions scope)]
            exact Gives.bind_none (Compile.gives_lift _) _
          · have argumentsClean := Props.isClean_arguments? mentionsSound clean passed
            have value : Item.meaning (standing workshop catalogue stack) scope
                (.component name mentions closed fills) =
                  (blueprint.template.meaning (standing workshop catalogue entered) arguments
                    (Bindings.ofList filled.fills)).map Tree.pieces := by
              rw [Item.meaning, means, Option.bind_eq_bind, Option.bind_some, standing_of_enter room known, passed,
                Option.bind_some]
              cases blueprint.template.meaning (standing workshop catalogue entered) arguments
                (Bindings.ofList filled.fills) <;> rfl
            have instances (tree : Tree)
                (made : instantiated blueprint arguments (Bindings.ofList filled.fills) = some tree) :
                Means workshop catalogue entered arguments tree.items :=
              deeper entered blueprint arguments tree room names known argumentsClean
                (isSound_instantiated argumentsClean fillsPlain made) (components_instantiated fillsPlain made)
            have reached := gives_instance argumentsClean fillsPlain instances (next first) (result? first) (behind first)
            rw [enters, Compile.lift_ok, pure_bind, Slot.fills_print filledPlain, value]
            cases result : blueprint.template.meaning (standing workshop catalogue entered) arguments
              (Bindings.ofList filled.fills) with
            | none =>
              rw [result] at reached
              exact reached
            | some tree =>
              rw [result] at reached
              rw [Option.map_some, Option.bind_some, Option.map_map]
              exact reached

/-- Items expand to what they mean, whatever is being expanded around them. -/
theorem means_items (registered : ∀ name, workshop.registry.find? name =
      (catalogue name).map Blueprint.component)
    {stack : ExpansionStack limit} {scope : Scope} (clean : isCleanScope scope = true) {items : List Item}
    (sound : ∀ item ∈ items, item.isSound = true)
    (under : Under catalogue stack.names (items.flatMap Item.components)) :
    Means workshop catalogue stack scope items := by
  -- the outer induction is for templates, which have less room; the inner one for children and what follows a tag
  induction room : stack.room using Nat.strongRecOn generalizing stack scope items with
  | ind depth shallower =>
    induction counted : (items.flatMap Item.pieces).length using Nat.strongRecOn generalizing items with
    | ind size smaller =>
      have plainsSound {plains : List Piece} {rest : List Item} (whole : items = plains.map Item.plain ++ rest) :
          ∀ piece ∈ plains, piece.isSound = true ∧ piece.component? = none := by
        intro piece member
        have pieceSound := sound (.plain piece) (by
          rw [whole]
          exact List.mem_append_left rest (List.mem_map_of_mem member))
        simpa [Item.isSound] using pieceSound
      rcases Item.exists_plains items with ⟨plains, rfl⟩ | ⟨plains, name, mentions, closed, fills, rest, rfl⟩
      · have both := plainsSound (List.append_nil _).symm
        exact means_plain (fun piece member => (both piece member).1) (fun piece member => (both piece member).2)
          stack scope
      · have both := plainsSound rfl
        have itemSound := sound (.component name mentions closed fills) (by simp)
        have restSound : ∀ item ∈ rest, item.isSound = true := fun item member => sound item (by simp [member])
        have fillsSound : fills.isSound .page true = true := by
          simp only [Item.isSound, Bool.and_eq_true] at itemSound
          exact itemSound.2
        have here : Under catalogue stack.names [name] := under.mono fun other member => by
          rw [List.mem_singleton.1 member]
          simp [Item.components]
        have fillsUnder : Under catalogue stack.names (fills.items.flatMap Item.components) := by
          rw [Tree.components_items]
          exact under.mono fun other member => by simp [Item.components, member]
        have restUnder : Under catalogue stack.names (rest.flatMap Item.components) :=
          under.mono fun other member => by
            rw [List.flatMap_append, List.flatMap_cons]
            exact List.mem_append_right _ (List.mem_append_right _ member)
        have sizes : fills.pieces.length < size ∧ (rest.flatMap Item.pieces).length < size := by
          rw [← counted]
          simp only [List.flatMap_append, List.flatMap_cons, List.length_append, Item.pieces, ComponentTag.element,
            List.length_cons]
          cases closed with
          | false =>
            simp only [Bool.false_eq_true, if_false, List.length_append]
            omega
          | true =>
            have empty : fills = .done := by
              simp only [Item.isSound, Tree.isComponentTag, Bool.and_eq_true] at itemSound
              simpa using itemSound.1.2
            rw [empty]
            simp only [Tree.pieces, List.length_nil]
            omega
        refine means_component registered clean (fun piece member => (both piece member).1)
          (fun piece member => (both piece member).2) itemSound restSound here ?_ ?_ ?_
        · exact smaller _ sizes.1 (Tree.isSound_items fillsSound) fillsUnder (by rw [Tree.pieces_items])
        · exact smaller _ sizes.2 restSound restUnder rfl
        · intro entered blueprint arguments tree less names known argumentsClean treeSound same
          refine shallower entered.room (by omega) argumentsClean (Tree.isSound_items treeSound) ?_ rfl
          rw [Tree.components_items, same, names]
          exact here.enter List.mem_cons_self known

end Items

/-! ### Libraries -/

/-- What a library's components stand for when the room of the stack is left. -/
abbrev expander {limit : Int} (workshop : Workshop) (library : Library) (addScope : Bool)
    (stack : ExpansionStack limit) : Expander :=
  library.expand workshop.strict addScope stack.room

/-- Behind any sound pieces the items expand to what they mean with a library. -/
abbrev Agrees {limit : Int} (workshop : Workshop) (library : Library) (addScope : Bool) (stack : ExpansionStack limit)
    (scope : Scope) (items : List Item) : Prop :=
  MeansBy (expander workshop library addScope stack) workshop stack scope items

theorem agrees_items {limit : Int} {workshop : Workshop} {library : Library} {addScope : Bool}
    (registered : ∀ name, workshop.registry.find? name = (library.find? name).map (Definition.component · addScope))
    {stack : ExpansionStack limit} {scope : Scope} (clean : isCleanScope scope = true) {items : List Item}
    (sound : ∀ item ∈ items, item.isSound = true)
    (under : Under (library.catalogue addScope) stack.names (items.flatMap Item.components)) :
    Agrees workshop library addScope stack scope items := by
  unfold Agrees expander
  rw [← library.expand_catalogue]
  refine means_items (fun name => ?_) clean sound under
  rw [registered, library.map_component_catalogue]

end Expansion

end ComponentPages
