import ComponentPages.Proofs.Markup.Page

/-!
What values can do to a page. A value is put into the text of a template or of a fill, and that text is read once
more in the scope of the template. So a value is inert as far as that second reading finds nothing in it.
-/
namespace ComponentPages

open Compile (Gives LeadsTo)

namespace Expansion

variable {limit : Int}

/-- A template with its values in place is read once more. -/
def reread (workshop : Workshop) (stack : ExpansionStack limit) (scope : Scope) (html : Text) : Compile Text := do
  let lowered ← Fetch.lower workshop.texts (Signal.resolve html)
  let settled ← Compile.lift (Conditional.settle lowered scope)
  expandFrom workshop stack scope settled 0

/-- A template with its fills in place is read for its values, and then once more. -/
def refill (workshop : Workshop) (stack : ExpansionStack limit) (scope : Scope) (html : Text) : Compile Text := do
  let masked ← mask html
  let settled ← Compile.lift (Conditional.settle masked scope)
  let substituted ← Compile.lift (Placeholder.substitute settled scope)
  reread workshop stack scope substituted

/-- What is done with a page at the end. -/
def finish (workshop : Workshop) (expanded : Text) : Compile Text := do
  let fetched ← Fetch.lower workshop.texts (Signal.resolve expanded)
  pure (Fetch.unmask fetched)

variable {workshop : Workshop} {stack : ExpansionStack limit} {scope : Scope} {pieces : List Piece}

theorem instantiate_reread {component : Component} (sound : ∀ piece ∈ pieces, piece.isSound = true)
    (template : component.template = printPieces pieces) (fills : Bindings Text) : (do
      let instance_ ← instantiate workshop component scope fills
      let settled ← Compile.lift (Conditional.settle instance_ scope)
      expandFrom workshop stack scope settled 0) =
        refill workshop stack scope (Slot.inject (printPieces pieces) fills) := by
  rw [instantiate, template, Signal.lower_printPieces sound, pure_bind]
  simp only [refill, reread, bind_assoc]

theorem leadsTo_reread (sound : ∀ piece ∈ pieces, piece.isSound = true) {filled : List Piece}
    (values : pieces.mapM (Piece.fill scope) = .ok filled) :
    (refill workshop stack scope (printPieces pieces)).LeadsTo (reread workshop stack scope (printPieces filled)) := by
  have substituted : Placeholder.substitute (printPieces pieces) scope = .ok (printPieces filled) := by
    rw [Placeholder.substitute_printPieces sound, values]
    rfl
  refine LeadsTo.bind_pure (leadsTo_mask (Fetch.next?_printPieces sound)) ?_
  exact LeadsTo.lift (Conditional.settle_printPieces sound scope) (LeadsTo.lift substituted (LeadsTo.refl _))

/-- Nothing is found in pieces without placeholders and components. -/
theorem gives_reread (sound : ∀ piece ∈ pieces, piece.isSound = true) (plain : ∀ piece ∈ pieces, piece.component? = none)
    (kept : pieces.mapM (Piece.fill scope) = .ok pieces) :
    (reread workshop stack scope (printPieces pieces)).Gives (some (printPieces pieces)) := by
  have untagged := @ComponentTag.next?_of_plain [] pieces sound plain
  have substituted : Placeholder.substitute (printPieces pieces) scope = .ok (printPieces pieces) := by
    rw [Placeholder.substitute_printPieces sound, kept]
    rfl
  refine Gives.bind_some
    (gives_fetched (Fetch.next?_printPieces sound) (isReserved_of_mem_printPieces sound) workshop.texts) ?_
  rw [Conditional.settle_printPieces sound, Compile.lift_ok, pure_bind]
  exact gives_expandFrom_of_untagged (congrArg Except.toOption untagged) (congrArg Except.toOption substituted)

theorem gives_finish (sound : ∀ piece ∈ pieces, piece.isSound = true) :
    (finish workshop (printPieces pieces)).Gives (some (printPieces pieces)) := by
  have free := isReserved_of_mem_printPieces sound
  refine Gives.bind_some (gives_fetched (Fetch.next?_printPieces sound) free workshop.texts) ?_
  rw [Fetch.unmask_of_unreserved free]
  exact Compile.gives_pure _

/-! ### A page that is the tag of one component -/

theorem expandFrom_end (sound : ∀ piece ∈ pieces, piece.isSound = true) :
    expandFrom workshop stack scope (printPieces pieces) (printPieces pieces).length = pure [] := by
  have untagged := @ComponentTag.next?_of_plain pieces [] (by simpa using sound) (by simp)
  rw [List.append_nil] at untagged
  have noted : danglingNotes (printPieces pieces) (printPieces pieces).length = [] := by
    rw [danglingNotes, ComponentTag.dangling, ComponentTag.marks, List.drop_length]
    rfl
  have nothing : Placeholder.substitute [] scope = .ok [] :=
    @Placeholder.substitute_printPieces [] (by simp) scope
  rw [expandFrom_of_none untagged, noted, List.drop_length, nothing, Compile.lift_ok]
  refine Compile.ext_run fun page => ?_
  rw [Compile.run_bind, Compile.run_note, List.append_nil]

/-- The tag's component is entered with the tag's arguments, and with what its children give for fills. -/
theorem leadsTo_element {name : Text} {mentions : List Mention} {closed : Bool} {inner : List Piece}
    (sound : ∀ piece ∈ ComponentTag.element name mentions closed inner, piece.isSound = true)
    (innerSound : ∀ piece ∈ inner, piece.isSound = true) (plain : ∀ piece ∈ inner, piece.component? = none)
    (pascal : isPascalCase name = true) (balanced : Tag.Balanced inner) (empty : closed = true → inner = [])
    {component : Component} (registered : workshop.registry.find? name = some component) {given : Scope}
    (passed : Argument.resolve (Text.trim (mentions.flatMap Mention.print)) scope component.props workshop.strict =
      .ok given)
    {children : List Piece} (values : inner.mapM (Piece.fill scope) = .ok children) {entered : ExpansionStack limit}
    (enters : stack.enter component.name = .ok entered) :
    (expandFrom workshop stack scope (printPieces (ComponentTag.element name mentions closed inner)) 0).LeadsTo (do
      let instance_ ← instantiate workshop component given (Slot.fills (printPieces children))
      let settled ← Compile.lift (Conditional.settle instance_ given)
      expandFrom workshop entered given settled 0) := by
  have found := @ComponentTag.next?_of_element [] [] [] inner name mentions closed (by simpa using sound) (by simp) pascal
    balanced
  simp only [List.nil_append, List.append_nil] at found
  have printed : (if closed = true then [] else printPieces inner) = printPieces inner := by
    cases closed with
    | false => rfl
    | true =>
      rw [empty rfl]
      rfl
  have nothing : Placeholder.substitute [] scope = .ok [] :=
    @Placeholder.substitute_printPieces [] (by simp) scope
  have required : workshop.registry.require name = .ok component := by rw [Registry.require, registered]
  have inside : (expandFrom workshop stack scope (printPieces inner) 0).LeadsTo (pure (printPieces children)) := by
    have untagged := @ComponentTag.next?_of_plain [] inner innerSound plain
    have substituted : Placeholder.substitute (printPieces inner) scope = .ok (printPieces children) := by
      rw [Placeholder.substitute_printPieces innerSound, values]
      rfl
    change ComponentTag.next? (printPieces inner) 0 = .ok none at untagged
    rw [expandFrom_of_none untagged, List.drop_zero, substituted]
    exact LeadsTo.note (LeadsTo.refl _) _
  change ComponentTag.next? (printPieces (ComponentTag.element name mentions closed inner)) 0 = _ at found
  rw [expandFrom_of_tag found]
  refine LeadsTo.note ?_ _
  dsimp only
  rw [printed, expandFrom_end sound]
  refine LeadsTo.lift nothing (LeadsTo.lift required ?_)
  have arguments : (arguments workshop component scope (Text.trim (mentions.flatMap Mention.print))).LeadsTo (pure given) := by
    refine LeadsTo.note ?_ _
    rw [passed]
    exact LeadsTo.refl _
  refine LeadsTo.bind_pure arguments (LeadsTo.note ?_ _)
  refine LeadsTo.lift (Conditional.settle_printPieces innerSound scope) (LeadsTo.bind_pure inside (LeadsTo.note ?_ _))
  refine LeadsTo.lift enters ?_
  simp only [pure_bind, List.nil_append, List.append_nil, bind_pure]
  exact LeadsTo.refl _

end Expansion

/-- The stack of one component. -/
def ExpansionStack.only {limit : Int} (positive : 0 < limit) (name : Text) : ExpansionStack limit where
  names := [name]
  distinct := List.pairwise_singleton _ name
  within := by simp only [List.length_singleton]; omega

theorem ExpansionStack.enter_empty {limit : Int} (positive : 0 < limit) (name : Text) :
    (empty limit).enter name = .ok (only positive name) := by
  rw [enter, dif_neg (by simp [empty]), dif_pos (by simpa [empty] using positive)]
  rfl

open Expansion (reread refill finish)

theorem leadsTo_compilePage {limit : Int} {workshop : Workshop} {stack : ExpansionStack limit} {scope : Scope}
    {pieces : List Piece} (sound : ∀ piece ∈ pieces, piece.isSound = true) {expansion : Compile Text}
    (expands : (Expansion.expandFrom workshop stack scope (printPieces pieces) 0).LeadsTo expansion) :
    (compilePage workshop stack scope true (printPieces pieces)).LeadsTo (expansion >>= finish workshop) := by
  rw [compilePage, if_pos rfl, Signal.lower_printPieces sound, pure_bind]
  refine LeadsTo.bind_pure (Expansion.leadsTo_mask (Fetch.next?_printPieces sound)) ?_
  rw [Expansion.expand, Conditional.settle_printPieces sound, Compile.lift_ok, pure_bind]
  exact expands.bind (finish workshop)

/-- A page that is the tag of one component compiles to the component's template, filled and read again. -/
theorem leadsTo_refill {limit : Int} (positive : 0 < limit) {workshop : Workshop} {definition : Definition}
    (sound : definition.isSound = true) {path : Option Text}
    (registered : workshop.registry.find? definition.name = some { definition.component false with path })
    {scope : Scope} {mentions : List Mention} {closed : Bool} {inner : List Piece}
    (tagSound : ∀ piece ∈ ComponentTag.element definition.name mentions closed inner, piece.isSound = true)
    (innerSound : ∀ piece ∈ inner, piece.isSound = true) (plain : ∀ piece ∈ inner, piece.component? = none)
    (balanced : Tag.Balanced inner) (empty : closed = true → inner = []) {given : Scope}
    (passed : definition.arguments? workshop.strict scope mentions = some given) {children : List Piece}
    (values : inner.mapM (Piece.fill scope) = .ok children) :
    (compilePage workshop (ExpansionStack.empty limit) scope true
      (printPieces (ComponentTag.element definition.name mentions closed inner))).LeadsTo
        (refill workshop (.only positive definition.name) given
          (Slot.inject (definition.template false).print (Slot.fills (printPieces children))) >>= finish workshop) := by
  have pascal : isPascalCase definition.name = true := by
    simp only [Definition.isSound, Bool.and_eq_true] at sound
    exact sound.1.1.1.1.1.1
  have mentionsSound : ∀ mention ∈ mentions, mention.isSound = true := by
    have opening := tagSound _ List.mem_cons_self
    simp only [Piece.isSound, Bool.and_eq_true, List.all_eq_true] at opening
    exact opening.1.2
  have resolved := (Argument.resolve_printed mentionsSound scope definition.props workshop.strict).trans passed
  have element := Expansion.leadsTo_element tagSound innerSound plain pascal balanced empty registered
    (eq_ok_of_toOption resolved) values (ExpansionStack.enter_empty positive definition.name)
  have template : ({ definition.component false with path } : Component).template =
      printPieces (definition.template false).pieces := rfl
  rw [Expansion.instantiate_reread (Tree.isSound_pieces (Definition.isSound_template sound false)) template] at element
  exact leadsTo_compilePage tagSound element

/-- A component that shows its argument in one element. -/
def Definition.shows : Definition where
  name := "C"
  quote := '\''
  declaration := "p string"
  props := [("p", .string)]
  root := "t"
  mentions := []
  body := .placeholder "p" .done

/-- A component that puts its fill in one element. -/
def Definition.encloses : Definition where
  name := "C"
  quote := '\''
  declaration := "q string"
  props := [("q", .string)]
  root := "t"
  mentions := []
  body := .slot "s" .done

/-- A text in one element. -/
def enclosed (text : Text) : List Piece := [.opening "t" [] false, .text text, .closing "t"]

theorem print_enclosed (text : Text) : printPieces (enclosed text) = "<t>" ++ text ++ "</t>" := by
  simp [enclosed, printPieces, Piece.print, printHead]

theorem isSound_enclosed {text : Text} (clean : text.all isTextPart = true) :
    ∀ piece ∈ enclosed text, piece.isSound = true := by
  intro piece member
  simp only [enclosed, List.mem_cons, List.not_mem_nil, or_false] at member
  rcases member with rfl | rfl | rfl
  · decide
  · exact clean
  · decide

theorem gives_enclosed {limit : Int} {workshop : Workshop} {stack : ExpansionStack limit} {scope : Scope} {text : Text}
    (clean : text.all isTextPart = true) :
    (reread workshop stack scope (printPieces (enclosed text)) >>= finish workshop).Gives
      (some (printPieces (enclosed text))) := by
  have sound := isSound_enclosed clean
  have plain : ∀ piece ∈ enclosed text, piece.component? = none := by
    intro piece member
    simp only [enclosed, List.mem_cons, List.not_mem_nil, or_false] at member
    rcases member with rfl | rfl | rfl <;> rfl
  exact Gives.bind_some (Expansion.gives_reread sound plain rfl) (Expansion.gives_finish sound)

theorem arguments?_single {definition : Definition} {prop word : Text} (props : definition.props = [(prop, .string)])
    {scope : Scope} {value : Text} (bound : Expression.evaluate word scope = .ok (.string value)) (strict : Bool) :
    definition.arguments? strict scope [⟨prop, .expression word⟩] = (some [(prop, .string value)] : Option Scope) := by
  have here : Mention.argument? definition.props strict scope ⟨prop, .expression word⟩ = some (prop, .string value) := by
    rw [Mention.argument?, Written.meaning, bound, props]
    simp [Except.toOption, accepts, Bindings.get?, Value.type]
  rw [Definition.arguments?, List.mapM_cons, here, props]
  simp [Bindings.ofList, Bindings.set, Bindings.binds, withZeros]

theorem leadsTo_shows {limit : Int} (positive : 0 < limit) {workshop : Workshop} {path : Option Text}
    {component : Component} (registered : workshop.registry.find? "C" = some component)
    (loaded : Component.load "C" "<t props='p string'>\x7bp\x7d</t>" path false = .ok component) (value : Text) :
    (compilePage workshop (ExpansionStack.empty limit) [("x", .string value)] true "<C p=\x7bx\x7d />").LeadsTo
      (reread workshop (.only positive "C") [("p", .string value)] (printPieces (enclosed value)) >>= finish workshop) := by
  have sound : Definition.shows.isSound = true := by decide +kernel
  have written : Definition.shows.source = "<t props='p string'>\x7bp\x7d</t>" := by decide +kernel
  have made := Definition.load_source sound path false
  rw [written] at made
  rw [Except.ok.inj (loaded.symm.trans made)] at registered
  have bound : Expression.evaluate "x" [("x", .string value)] = .ok (.string value) :=
    Expression.evaluate_name (by decide +kernel) rfl
  have shown : Expression.evaluate "p" [("p", .string value)] = .ok (.string value) :=
    Expression.evaluate_name (by decide +kernel) rfl
  have tagSound : ∀ piece ∈ ComponentTag.element "C" [⟨"p", .expression "x"⟩] true [], piece.isSound = true := by
    decide +kernel
  have childless : ([] : List Piece).mapM (Piece.fill [("x", .string value)]) = .ok [] := rfl
  have leads := leadsTo_refill positive sound registered tagSound (by simp) (by simp) .nil (fun _ => rfl)
    (arguments?_single rfl bound workshop.strict) childless
  have template : Slot.inject (Definition.shows.template false).print (Slot.fills (printPieces [])) =
      printPieces (Definition.shows.template false).pieces := by decide +kernel
  have templateSound : ∀ piece ∈ (Definition.shows.template false).pieces, piece.isSound = true := by decide +kernel
  have values : (Definition.shows.template false).pieces.mapM (Piece.fill [("p", .string value)]) = .ok (enclosed value) := by
    have pieces : (Definition.shows.template false).pieces = [.opening "t" [] false, .placeholder "p", .closing "t"] := rfl
    rw [pieces]
    simp only [List.mapM_cons, List.mapM_nil, Piece.fill, shown]
    rfl
  have printed : printPieces (ComponentTag.element Definition.shows.name [⟨"p", .expression "x"⟩] true []) =
      "<C p=\x7bx\x7d />" := by decide +kernel
  rw [template, printed] at leads
  exact leads.trans ((Expansion.leadsTo_reread templateSound values).bind _)

/-- What a component finds for its slot among children that hold a value. -/
def fillOf (value : Text) : Text := ((Slot.fills ("<slot name='s'>" ++ value ++ "</slot>")).get? "s").getD []

theorem inject_encloses (fills : Bindings Text) :
    Slot.inject (Definition.encloses.template false).print fills =
      printPieces (enclosed ((fills.get? "s").getD [])) := by
  let trees : Bindings Tree := fills.mapValues fun text => .text text .done
  have same : trees.mapValues Tree.print = fills := by
    simp [trees, Bindings.mapValues, Function.comp_def, Tree.print, Tree.pieces, printPieces, Piece.print]
  have injected := @Slot.inject_print trees (Definition.encloses.template false) _ (by decide) rfl
  rw [same] at injected
  rw [injected]
  have found : trees.get? "s" = (fills.get? "s").map fun text => .text text .done := Bindings.get?_mapValues _ _ _
  rw [found]
  cases fills.get? "s" with
  | none => rfl
  | some text => rfl

theorem leadsTo_encloses {limit : Int} (positive : 0 < limit) {workshop : Workshop} {path : Option Text}
    {component : Component} (registered : workshop.registry.find? "C" = some component)
    (loaded : Component.load "C" "<t props='q string'><slot name='s' /></t>" path false = .ok component)
    (value other : Text) :
    (compilePage workshop (ExpansionStack.empty limit) [("x", .string value), ("y", .string other)] true
      "<C q=\x7by\x7d><slot name='s'>\x7bx\x7d</slot></C>").LeadsTo
        (refill workshop (.only positive "C") [("q", .string other)] (printPieces (enclosed (fillOf value))) >>=
          finish workshop) := by
  have sound : Definition.encloses.isSound = true := by decide +kernel
  have written : Definition.encloses.source = "<t props='q string'><slot name='s' /></t>" := by decide +kernel
  have made := Definition.load_source sound path false
  rw [written] at made
  rw [Except.ok.inj (loaded.symm.trans made)] at registered
  have bound : Expression.evaluate "y" [("x", .string value), ("y", .string other)] = .ok (.string other) :=
    Expression.evaluate_name (by decide +kernel) rfl
  have shown : Expression.evaluate "x" [("x", .string value), ("y", .string other)] = .ok (.string value) :=
    Expression.evaluate_name (by decide +kernel) rfl
  let around (piece : Piece) : List Piece := [.opening "slot" [slotMention "s"] false, piece, .closing "slot"]
  have tagSound : ∀ piece ∈ ComponentTag.element "C" [⟨"q", .expression "y"⟩] false (around (.placeholder "x")),
      piece.isSound = true := by decide +kernel
  have innerSound : ∀ piece ∈ around (.placeholder "x"), piece.isSound = true := by decide +kernel
  have plain : ∀ piece ∈ around (.placeholder "x"), piece.component? = none := by decide +kernel
  have balanced : Tag.Balanced (around (.placeholder "x")) := .element (.leaf rfl)
  have values : (around (.placeholder "x")).mapM (Piece.fill [("x", .string value), ("y", .string other)]) =
      .ok (around (.text value)) := by
    simp only [around, List.mapM_cons, List.mapM_nil, Piece.fill, shown]
    rfl
  have leads := leadsTo_refill positive sound registered tagSound innerSound plain balanced (by simp)
    (arguments?_single rfl bound workshop.strict) values
  have children : printPieces (around (.text value)) = "<slot name='s'>" ++ value ++ "</slot>" := by
    have opening : (Piece.opening "slot" [slotMention "s"] false).print = "<slot name='s'>" := by decide +kernel
    have closing : (Piece.closing "slot").print = "</slot>" := by decide +kernel
    rw [printPieces_cons, printPieces_cons, printPieces_cons, opening, closing, printPieces, List.flatMap_nil,
      List.append_nil, List.append_assoc, Piece.print]
  have printed : printPieces (ComponentTag.element Definition.encloses.name [⟨"q", .expression "y"⟩] false
      (around (.placeholder "x"))) = "<C q=\x7by\x7d><slot name='s'>\x7bx\x7d</slot></C>" := by decide +kernel
  rw [children, inject_encloses, printed] at leads
  exact leads

theorem fillOf_of_clean {value : Text} (clean : value.all isTextPart = true) : fillOf value = value := by
  have plain : (Tree.fill "s" (.text value .done) .done).isSound .plain true = true := by
    have named : isSlotName "s" = true := by decide
    change (isSlotName "s" && (value.all isTextPart && true) && true) = true
    rw [named, clean]
    rfl
  have opening : (Piece.opening "slot" [slotMention "s"] false).print = "<slot name='s'>" := rfl
  have closing : (Piece.closing "slot").print = "</slot>" := rfl
  have printed : (Tree.fill "s" (.text value .done) .done).print = "<slot name='s'>" ++ value ++ "</slot>" := by
    rw [Tree.print_fill, Tree.print_text, opening, closing]
    simp [Tree.print, Tree.pieces, printPieces]
  have found := Slot.fills_print plain
  rw [printed] at found
  rw [fillOf, found, Bindings.get?_mapValues]
  simp [Tree.fills, Bindings.ofList, Bindings.set, Bindings.get?, Tree.print, Tree.pieces, printPieces, Piece.print]

/-- A value comes out as it is where reading it again leaves it as it is, and text without markup always does. -/
theorem compileFresh_rereads (workshop : Workshop) {limit : Int} (positive : 0 < limit) {path : Option Text}
    {component : Component} (registered : workshop.registry.find? "C" = some component) (value : Text) :
    (Component.load "C" "<t props='p string'>\x7bp\x7d</t>" path false = .ok component →
      (∃ notes, compileFresh workshop limit [("x", .string value)] "<C p=\x7bx\x7d />" =
        (reread workshop (.only positive "C") [("p", .string value)] ("<t>" ++ value ++ "</t>") >>=
          finish workshop).run { notes }) ∧
      (value.all isTextPart = true →
        (compileFresh workshop limit [("x", .string value)] "<C p=\x7bx\x7d />").1.toOption =
          some ("<t>" ++ value ++ "</t>"))) ∧
    (Component.load "C" "<t props='q string'><slot name='s' /></t>" path false = .ok component → ∀ other : Text,
      (∃ notes, compileFresh workshop limit [("x", .string value), ("y", .string other)]
          "<C q=\x7by\x7d><slot name='s'>\x7bx\x7d</slot></C>" =
        (refill workshop (.only positive "C") [("q", .string other)] ("<t>" ++ fillOf value ++ "</t>") >>=
          finish workshop).run { notes }) ∧
      (value.all isTextPart = true →
        (compileFresh workshop limit [("x", .string value), ("y", .string other)]
          "<C q=\x7by\x7d><slot name='s'>\x7bx\x7d</slot></C>").1.toOption = some ("<t>" ++ value ++ "</t>"))) := by
  rw [← print_enclosed value, ← print_enclosed (fillOf value)]
  constructor
  · intro loaded
    have leads := leadsTo_shows positive registered loaded value
    constructor
    · obtain ⟨notes, reached⟩ := leads {}
      exact ⟨[] ++ notes, reached⟩
    · intro clean
      exact leads.gives (gives_enclosed clean) {}
  · intro loaded other
    have leads := leadsTo_encloses positive registered loaded value other
    constructor
    · obtain ⟨notes, reached⟩ := leads {}
      exact ⟨[] ++ notes, reached⟩
    · intro clean
      rw [fillOf_of_clean clean] at leads
      have again : (refill workshop (.only positive "C") [("q", .string other)] (printPieces (enclosed value))).LeadsTo
          (reread workshop (.only positive "C") [("q", .string other)] (printPieces (enclosed value))) :=
        Expansion.leadsTo_reread (isSound_enclosed clean) rfl
      exact leads.gives ((again.bind (finish workshop)).gives (gives_enclosed clean)) {}

/-- A sum that is passed as a value comes out added, and a name that is passed to a slot shows the argument of the
component behind it. -/
theorem compileFresh_rereads_sum :
    (∃ component, Component.load "C" "<t props='p string'>\x7bp\x7d</t>" none false = .ok component ∧
      (compileFresh { registry := ⟨[component]⟩ } 100 [("x", .string "\x7b1+1\x7d")] "<C p=\x7bx\x7d />").1.toOption =
        some "<t>2</t>") ∧
    (∃ component, Component.load "C" "<t props='q string'><slot name='s' /></t>" none false = .ok component ∧
      (compileFresh { registry := ⟨[component]⟩ } 100 [("x", .string "\x7bq\x7d"), ("y", .string "secret")]
        "<C q=\x7by\x7d><slot name='s'>\x7bx\x7d</slot></C>").1.toOption = some "<t>secret</t>") := by
  have rereads {workshop : Workshop} {stack : ExpansionStack 100} {scope : Scope} {html result : Text}
      (unfetched : (Fetch.next? html 0).isNone) (free : ∀ c ∈ html, isReserved c = false)
      (unsought : (Conditional.seek? html).isNone) (untagged : (ComponentTag.next? html 0).toOption = some none)
      (substituted : (Placeholder.substitute html scope).toOption = some result)
      (unfetchedLater : (Fetch.next? result 0).isNone) (freeLater : ∀ c ∈ result, isReserved c = false) :
      (reread workshop stack scope html >>= finish workshop).Gives (some result) := by
    rw [Option.isNone_iff_eq_none] at unfetched unsought unfetchedLater
    have again : (reread workshop stack scope html).Gives (some result) := by
      refine Gives.bind_some (Expansion.gives_fetched unfetched free workshop.texts) ?_
      rw [Conditional.settle_of_none unsought, Compile.lift_ok, pure_bind]
      exact gives_expandFrom_of_untagged untagged substituted
    refine Gives.bind_some again (Gives.bind_some (Expansion.gives_fetched unfetchedLater freeLater workshop.texts) ?_)
    rw [Fetch.unmask_of_unreserved freeLater]
    exact Compile.gives_pure _
  constructor
  · have loaded : Component.load "C" "<t props='p string'>\x7bp\x7d</t>" none false =
        .ok (Definition.shows.component false) := eq_ok_of_toOption (by decide +kernel)
    refine ⟨_, loaded, ?_⟩
    obtain ⟨⟨notes, reached⟩, -⟩ := (@compileFresh_rereads { registry := ⟨[Definition.shows.component false]⟩ } 100
      (by decide) none _ (by decide +kernel) "\x7b1+1\x7d").1 loaded
    rw [reached]
    exact rereads (by decide +kernel) (by decide +kernel) (by decide +kernel) (by decide +kernel) (by decide +kernel)
      (by decide +kernel) (by decide +kernel) _
  · have loaded : Component.load "C" "<t props='q string'><slot name='s' /></t>" none false =
        .ok (Definition.encloses.component false) := eq_ok_of_toOption (by decide +kernel)
    refine ⟨_, loaded, ?_⟩
    obtain ⟨⟨notes, reached⟩, -⟩ := (@compileFresh_rereads { registry := ⟨[Definition.encloses.component false]⟩ } 100
      (by decide) none _ (by decide +kernel) "\x7bq\x7d").2 loaded "secret"
    rw [reached]
    let pieces : List Piece := [.opening "t" [] false, .placeholder "q", .closing "t"]
    have sound : ∀ piece ∈ pieces, piece.isSound = true := by decide +kernel
    have shown : Expression.evaluate "q" [("q", .string "secret")] = .ok (.string "secret") :=
      Expression.evaluate_name (by decide +kernel) rfl
    have values : pieces.mapM (Piece.fill [("q", .string "secret")]) = .ok (enclosed "secret") := by
      simp only [pieces, List.mapM_cons, List.mapM_nil, Piece.fill, shown]
      rfl
    have positive : (0 : Int) < 100 := by decide
    have leads : (refill { registry := ⟨[Definition.encloses.component false]⟩ } (.only positive "C")
        [("q", .string "secret")] (printPieces pieces)).LeadsTo _ := Expansion.leadsTo_reread sound values
    have printed : printPieces pieces = "<t>" ++ fillOf "\x7bq\x7d" ++ "</t>" := by decide +kernel
    rw [printed] at leads
    exact (leads.bind (finish _)).gives (gives_enclosed (by decide +kernel)) _

end ComponentPages
