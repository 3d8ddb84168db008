import ComponentPages.Proofs.Markup.Expansion

/-!
A page compiles to what it means: with the components of a library loaded from their sources, the text of a page
turns into the text of the tree that substitution gives, or into a failure where substitution gives nothing.
-/
namespace ComponentPages

open Compile (Gives)

/-- Expansion is substitution: a page gives what its tree means, and fails where it means nothing. -/
theorem compileFresh_eq_meaning (library : Library) (strict addScope : Bool) (texts : ScriptTexts) (limit : Int)
    {page : Tree} (sound : page.isSound .page false = true) {scope : Scope} (clean : isCleanScope scope = true) :
    ∃ registry, library.load addScope = .ok registry ∧
      (compileFresh { registry, strict, texts } limit scope page.print).1.toOption =
        (library.meaning strict addScope limit.toNat scope page).map Tree.print := by
  let workshop : Workshop :=
    { registry := ⟨library.definitions.map (Definition.component · addScope)⟩, strict, texts }
  refine ⟨workshop.registry, library.load_eq_ok addScope, ?_⟩
  have pieces := Tree.isSound_pieces sound
  have agrees : Expansion.Agrees workshop library addScope (ExpansionStack.empty limit) scope page.items :=
    Expansion.agrees_items (library.find?_load addScope) clean (Tree.isSound_items sound)
      (fun outer member => nomatch member)
  have expanded := agrees [] (by simp)
  rw [List.nil_append, Tree.pieces_items, ← Tree.meaning_items _ scope sound, Option.map_map] at expanded
  have compiled : (compilePage workshop (ExpansionStack.empty limit) scope true page.print).Gives
      ((library.meaning strict addScope limit.toNat scope page).map Tree.print) := by
    refine gives_compilePage (Signal.lower_printPieces pieces scope) (Fetch.next?_printPieces pieces)
      (Conditional.settle_printPieces pieces scope) expanded ?_
    intro result reached
    obtain ⟨tree, means, rfl⟩ := Option.map_eq_some_iff.1 reached
    have plain := Tree.isSound_meaning (library.expands strict addScope limit.toNat) clean
      (by simp [Bindings.ArePlain]) sound means
    have treePieces := Tree.isSound_pieces plain
    exact ⟨Fetch.next?_printPieces treePieces, isReserved_of_mem_printPieces treePieces⟩
  exact compiled {}

/-- A page on which one component's fill shows what the page knows and its template what the tag passes. -/
theorem compileFresh_card :
    ∃ library : Library, ∃ page : Tree, page.print = "<Card n={x*2}><slot name='s'>{x}</slot></Card>" ∧
      ∃ registry, library.load false = .ok registry ∧
        (compileFresh { registry } 100 [("x", .int 3)] page.print).1.toOption = some "<p>7, 3</p>" := by
  let card : Definition := {
    name := "Card", quote := '\'', declaration := "n int", props := [("n", .int)], root := "p", mentions := [],
    body := .placeholder "n+1" (.text ", " (.slot "s" .done)) }
  let library : Library := { definitions := [card], sound := by decide +kernel, distinct := by decide +kernel }
  let page : Tree := .component "Card" [⟨"n", .expression "x*2"⟩] false (.fill "s" (.placeholder "x" .done) .done) .done
  refine ⟨library, page, by decide +kernel, ?_⟩
  obtain ⟨registry, loaded, compiled⟩ :=
    @compileFresh_eq_meaning library false false {} 100 page (by decide +kernel) [("x", .int 3)] (by decide +kernel)
  refine ⟨registry, loaded, ?_⟩
  rw [compiled]
  decide +kernel

/-- A slot stays where its name is no slug. -/
theorem compileFresh_of_spaced_slot {component : Component}
    (loaded : Component.load "C" "<b props=''><slot name='a b' /></b>" none false = .ok component) :
    (compileFresh { registry := ⟨[component]⟩ } 100 [] "<C><slot name='a b'>x</slot></C>").1.toOption =
      some "<b><slot name='a b' /></b>" := by
  let made : Component := ⟨"C", "<b><slot name='a b' /></b>", [], "data-c", [], none⟩
  have same : Component.load "C" "<b props=''><slot name='a b' /></b>" none false = .ok made :=
    eq_ok_of_toOption (by decide +kernel)
  rw [same] at loaded
  obtain rfl := Except.ok.inj loaded
  let workshop : Workshop := { registry := ⟨[made]⟩ }
  let stack : ExpansionStack 100 := ExpansionStack.empty 100
  let children : Text := "<slot name='a b'>x</slot>"
  let tag : ComponentTag := ⟨0, 32, "C", false, [], children⟩
  have found : ComponentTag.next? "<C><slot name='a b'>x</slot></C>" 0 = .ok (some tag) :=
    eq_ok_of_toOption (by decide +kernel)
  have inside : (Expansion.expandFrom workshop stack [] children 0).Gives (some children) :=
    gives_expandFrom_of_untagged (by decide +kernel) (by decide +kernel)
  have lowered : Signal.lower made.template [] = pure made.template :=
    Signal.lower_of_quiet (by decide +kernel) (by decide +kernel) (by decide +kernel) []
  have instantiated : (Expansion.instantiate workshop made [] (Slot.fills children)).Gives (some made.template) := by
    have injected : Slot.inject made.template (Slot.fills children) = made.template := by decide +kernel
    have unfetched : Fetch.next? made.template 0 = none := Option.isNone_iff_eq_none.1 (by decide +kernel)
    have unsought : Conditional.seek? made.template = none := Option.isNone_iff_eq_none.1 (by decide +kernel)
    rw [Expansion.instantiate, lowered, pure_bind, injected]
    refine Gives.bind_some (Expansion.gives_mask unfetched) ?_
    rw [Conditional.settle_of_none unsought, Compile.lift_ok, pure_bind]
    exact @Gives.bind_some _ _ _ made.template (Compile.gives_lift_of_toOption (by decide +kernel)) _ _
      (Expansion.gives_fetched unfetched (by decide +kernel) _)
  have expanded : (Expansion.expandFrom workshop stack [] "<C><slot name='a b'>x</slot></C>" 0).Gives
      (some made.template) := by
    rw [Expansion.expandFrom_of_tag found]
    refine Gives.note ?_ _
    refine @Gives.bind_some _ _ _ [] (Compile.gives_lift_of_toOption (by decide +kernel)) _ _ ?_
    refine @Gives.bind_some _ _ _ made (Compile.gives_lift_of_toOption (by decide +kernel)) _ _ ?_
    refine @Gives.bind_some _ _ _ [] (Gives.note (Compile.gives_lift_of_toOption (by decide +kernel)) _) _ _ ?_
    refine Gives.note ?_ _
    refine @Gives.bind_some _ _ _ children (Compile.gives_lift_of_toOption (by decide +kernel)) _ _ ?_
    refine Gives.bind_some inside (Gives.note ?_ _)
    obtain ⟨entered, enters⟩ : ∃ entered, stack.enter made.name = .ok entered := ⟨_, rfl⟩
    rw [enters, Compile.lift_ok, pure_bind]
    refine Gives.bind_some instantiated ?_
    refine @Gives.bind_some _ _ _ made.template (Compile.gives_lift_of_toOption (by decide +kernel)) _ _ ?_
    refine @Gives.bind_some _ _ _ made.template
      (gives_expandFrom_of_untagged (by decide +kernel) (by decide +kernel)) _ _ ?_
    have rest : (Expansion.expandFrom workshop stack [] "<C><slot name='a b'>x</slot></C>" 32).Gives (some []) := by
      rw [Expansion.expandFrom_of_none (eq_ok_of_toOption (by decide +kernel))]
      exact Gives.note (Compile.gives_lift_of_toOption (by decide +kernel)) _
    exact Gives.bind_some rest (Compile.gives_pure _)
  have unsought : Conditional.seek? "<C><slot name='a b'>x</slot></C>" = none := Option.isNone_iff_eq_none.1 (by decide +kernel)
  refine gives_compilePage (Signal.lower_of_quiet (by decide +kernel) (by decide +kernel) (by decide +kernel) _)
    (Option.isNone_iff_eq_none.1 (by decide +kernel)) (Conditional.settle_of_none unsought []) expanded ?_ {}
  intro result reached
  rw [← Option.some.inj reached]
  exact ⟨Option.isNone_iff_eq_none.1 (by decide +kernel), by decide +kernel⟩

/-- Outside the names and texts of sound markup pages compile to something else: no component is found under the
name of a script block, no slot under a name that is no slug, and no placeholder around nothing. -/
theorem compileFresh_of_odd_names :
    (∃ definition : Definition, ∃ page : Tree, ∃ component,
      definition.source = "<b props=''>hi</b>" ∧ page.print = "<Script></Script>" ∧
        Component.load definition.name definition.source none false = .ok component ∧
        (page.meaning (fun _ _ _ => (definition.template false).meaning (fun _ _ _ _ => none) []) [] []).map Tree.print =
          some "<b>hi</b>" ∧
        (compileFresh { registry := ⟨[component]⟩ } 100 [] page.print).1.toOption = some "<Script></Script>") ∧
    (∃ definition : Definition, ∃ page : Tree, ∃ component,
      definition.source = "<b props=''><slot name='a b' /></b>" ∧ page.print = "<C><slot name='a b'>x</slot></C>" ∧
        Component.load definition.name definition.source none false = .ok component ∧
        (page.meaning (fun _ _ _ => (definition.template false).meaning (fun _ _ _ _ => none) []) [] []).map Tree.print =
          some "<b>x</b>" ∧
        (compileFresh { registry := ⟨[component]⟩ } 100 [] page.print).1.toOption = some "<b><slot name='a b' /></b>") ∧
    (∃ page : Tree, page.print = "\x7b\x7d" ∧ page.meaning (fun _ _ _ _ => none) [] [] = none ∧
      (compileFresh {} 100 [] page.print).1.toOption = some "\x7b\x7d") := by
  refine ⟨?_, ?_, ?_⟩
  · let definition : Definition := {
      name := "Script", quote := '\'', declaration := [], props := [], root := "b", mentions := [],
      body := .text "hi" .done }
    let page : Tree := .component "Script" [] false .done .done
    have printed : page.print = "<Script></Script>" := by decide +kernel
    refine ⟨definition, page, definition.component false, by decide +kernel, printed,
      eq_ok_of_toOption (by decide +kernel), by decide +kernel, ?_⟩
    rw [printed]
    exact gives_compilePage_of_inert (Signal.lower_of_quiet (by decide +kernel) (by decide +kernel)
      (by decide +kernel) _) (by decide +kernel) (by decide +kernel) (by decide +kernel) (by decide +kernel)
      (by decide +kernel) {}
  · let definition : Definition := {
      name := "C", quote := '\'', declaration := [], props := [], root := "b", mentions := [], body := .slot "a b" .done }
    let page : Tree := .component "C" [] false (.fill "a b" (.text "x" .done) .done) .done
    have written : definition.source = "<b props=''><slot name='a b' /></b>" := by decide +kernel
    have printed : page.print = "<C><slot name='a b'>x</slot></C>" := by decide +kernel
    have loaded : Component.load definition.name definition.source none false = .ok (definition.component false) :=
      eq_ok_of_toOption (by decide +kernel)
    refine ⟨definition, page, definition.component false, written, printed, loaded, by decide +kernel, ?_⟩
    rw [printed]
    rw [written] at loaded
    exact compileFresh_of_spaced_slot loaded
  · let page : Tree := .placeholder [] .done
    have printed : page.print = "\x7b\x7d" := by decide +kernel
    refine ⟨page, printed, by decide +kernel, ?_⟩
    rw [printed]
    exact gives_compilePage_of_inert (Signal.lower_of_quiet (by decide +kernel) (by decide +kernel)
      (by decide +kernel) _) (by decide +kernel) (by decide +kernel) (by decide +kernel) (by decide +kernel)
      (by decide +kernel) {}

end ComponentPages
