import ComponentPages.Proofs.Markup.Page
import ComponentPages.Proofs.Termination

/-!
Guards only reject. A compilation is stricter than another one when the other one comes to the same success, value
and page, wherever it succeeds itself. Sequences inherit this from their parts, so it is enough to look at the places
where a compilation asks its options: the registry, the check of an argument, the filling of props and the entry
into a component.
-/
namespace ComponentPages

variable {α β : Type}

/-- The second result is the first one where that is a success. -/
def Stricter (first second : Except Failure α) : Prop := ∀ value, first = .ok value → second = .ok value

namespace Stricter

theorem refl (result : Except Failure α) : Stricter result result := fun _ succeeds => succeeds

theorem of_error (failure : Failure) (result : Except Failure α) : Stricter (.error failure) result :=
  fun _ succeeds => nomatch succeeds

theorem bind {first second : Except Failure α} (stricter : Stricter first second) {next other : α → Except Failure β}
    (then_ : ∀ value, Stricter (next value) (other value)) : Stricter (first >>= next) (second >>= other) := by
  cases first with
  | error failure => exact of_error failure _
  | ok value =>
    rw [stricter value rfl]
    exact then_ value

theorem mapM {f g : α → Except Failure β} (stricter : ∀ a, Stricter (f a) (g a)) (list : List α) :
    Stricter (list.mapM f) (list.mapM g) := by
  induction list with
  | nil => exact refl _
  | cons a list ih =>
    rw [List.mapM_cons, List.mapM_cons]
    exact (stricter a).bind fun first => ih.bind fun others => refl _

theorem foldlM {f g : β → α → Except Failure β} (stricter : ∀ b a, Stricter (f b a) (g b a)) (list : List α)
    (start : β) :
    Stricter (list.foldlM f start) (list.foldlM g start) := by
  induction list generalizing start with
  | nil => exact refl _
  | cons a list ih =>
    rw [List.foldlM_cons, List.foldlM_cons]
    exact (stricter start a).bind ih

end Stricter

namespace Argument

variable {strict laxer : Bool}

theorem check_stricter (implies : laxer = true → strict = true) (props : Props) (attr : Attribute) (value : Value) :
    Stricter (check props strict attr value) (check props laxer attr value) := by
  unfold check
  cases props.get? attr.name with
  | some type => exact .refl _
  | none =>
    cases strict with
    | true => exact .of_error _ _
    | false =>
      have lax : laxer = false := by simpa using implies
      rw [lax]
      exact .refl _

theorem ofAttribute_stricter (implies : laxer = true → strict = true) (caller : Scope) (props : Props)
    (attr : Attribute) :
    Stricter (ofAttribute caller props strict attr) (ofAttribute caller props laxer attr) := by
  refine (Stricter.refl (value? caller props attr)).bind fun passed => ?_
  cases passed with
  | none => exact .refl _
  | some value => exact (check_stricter implies props attr value).bind fun _ => .refl _

/-- Only a prop that nobody gave tells the two apart. -/
theorem fill_stricter (implies : laxer = true → strict = true) (given : Bindings Value) (prop : Text × ValueType) :
    Stricter (fill strict given prop) (fill laxer given prop) := by
  unfold fill
  dsimp only
  split
  · exact .refl _
  · cases strict with
    | true => exact .of_error _ _
    | false =>
      have lax : laxer = false := by simpa using implies
      rw [lax]
      exact .refl _

theorem resolve_stricter (implies : laxer = true → strict = true) (head : Text) (caller : Scope) (props : Props) :
    Stricter (resolve head caller props strict) (resolve head caller props laxer) := by
  refine (Stricter.mapM (ofAttribute_stricter implies caller props) _).bind fun given => ?_
  exact Stricter.foldlM (fill_stricter implies) props _

/-- Arguments that resolve were all read. -/
theorem reached_of_resolve {head : Text} {caller : Scope} {props : Props} {arguments : Bindings Value}
    (resolved : resolve head caller props strict = .ok arguments) :
    reached head caller props strict = Attribute.tokenize head := by
  unfold resolve at resolved
  cases mapped : (Attribute.tokenize head).mapM (ofAttribute caller props strict) with
  | error failure =>
    rw [mapped] at resolved
    cases resolved
  | ok given =>
    have passes := toOption_mapM (ofAttribute caller props strict) (Attribute.tokenize head)
    rw [mapped] at passes
    exact List.takeWhile_eq_self_iff.2 (isSome_of_mapM passes.symm)

end Argument

namespace Compile

/-- The second compilation comes to the value and the page of the first one where that succeeds. -/
def Stricter (first second : Compile α) : Prop :=
  ∀ page value later, first.run page = (.ok value, later) → second.run page = (.ok value, later)

namespace Stricter

theorem refl (compilation : Compile α) : compilation.Stricter compilation := fun _ _ _ succeeds => succeeds

theorem throw (failure : Failure) (compilation : Compile α) : Stricter (throw failure) compilation := by
  intro page value later succeeds
  cases succeeds

theorem lift {first second : Except Failure α} (stricter : ComponentPages.Stricter first second) :
    (Compile.lift first).Stricter (Compile.lift second) := by
  intro page value later succeeds
  rw [run_lift] at succeeds ⊢
  obtain ⟨rfl, rfl⟩ := Prod.mk.inj succeeds
  rw [stricter value rfl]

theorem bind {first second : Compile α} (stricter : first.Stricter second) {next other : α → Compile β}
    (then_ : ∀ value, first.Yields value → (next value).Stricter (other value)) :
    (first >>= next).Stricter (second >>= other) := by
  intro page result last succeeds
  rw [run_bind] at succeeds
  cases ran : first.run page with
  | mk outcome later =>
    rw [ran] at succeeds
    cases outcome with
    | error failure => cases succeeds
    | ok value =>
      rw [run_bind_of_ok (stricter page value later ran)]
      exact then_ value ⟨page, later, ran⟩ later result last succeeds

/-- As `bind`, for compilations that begin alike. -/
theorem after (first : Compile α) {next other : α → Compile β}
    (then_ : ∀ value, first.Yields value → (next value).Stricter (other value)) :
    (first >>= next).Stricter (first >>= other) :=
  (refl first).bind then_

end Stricter

end Compile

/-- Every component of the first registry is known to the second one under the same name. -/
def Registry.Within (small large : Registry) : Prop :=
  ∀ name component, small.find? name = some component → large.find? name = some component

theorem Registry.within_add {registry larger : Registry} {component : Component}
    (added : registry.add component = .ok larger) : registry.Within larger := by
  intro name found known
  unfold add at added
  split at added
  · cases added
  · obtain rfl := Except.ok.inj added
    unfold find? at known ⊢
    rw [List.find?_append, known]
    rfl

theorem Registry.require_stricter {small large : Registry} (within : small.Within large) (name : Text) :
    Stricter (small.require name) (large.require name) := by
  unfold require
  cases known : small.find? name with
  | none => exact .of_error _ _
  | some component =>
    rw [within name component known]
    exact .refl _

/-- The second workshop knows the components of the first one and is strict at most where that is. -/
structure Workshop.Laxer (small large : Workshop) : Prop where
  registry : small.registry.Within large.registry
  strict : large.strict = true → small.strict = true
  texts : small.texts = large.texts

namespace Expansion

open Compile (Stricter)

variable {small large : Workshop} {limit wider : Int}

theorem enter_stricter (limits : limit ≤ wider) {stack entered : ExpansionStack limit} {other : ExpansionStack wider}
    (same : stack.names = other.names) {name : Text} (enters : stack.enter name = .ok entered) :
    ∃ reached, other.enter name = .ok reached ∧ entered.names = reached.names := by
  unfold ExpansionStack.enter at enters ⊢
  split at enters
  · cases enters
  · next fresh =>
    split at enters
    · next room =>
      obtain rfl := Except.ok.inj enters
      have later : ¬name ∈ other.names := by rwa [← same]
      have roomier : (other.names.length : Int) < wider := by
        rw [← same]
        omega
      rw [dif_neg later, dif_pos roomier]
      exact ⟨_, rfl, by simp only [same]⟩
    · cases enters

theorem arguments_stricter (laxer : small.Laxer large) (component : Component) (scope : Scope) (head : Text) :
    (arguments small component scope head).Stricter (arguments large component scope head) := by
  intro page value later succeeds
  unfold arguments at succeeds ⊢
  rw [Compile.run_bind, Compile.run_note] at succeeds ⊢
  dsimp only at succeeds ⊢
  rw [Compile.run_lift] at succeeds ⊢
  obtain ⟨resolved, rfl⟩ := Prod.mk.inj succeeds
  have looser := Argument.resolve_stricter laxer.strict head scope component.props value resolved
  rw [looser, Argument.reached_of_resolve resolved, Argument.reached_of_resolve looser]

theorem instantiate_eq_of_texts (same : small.texts = large.texts) (component : Component) (scope : Scope)
    (fills : Bindings Text) : instantiate small component scope fills = instantiate large component scope fills := by
  unfold instantiate
  rw [same]

/-- The expansions under the two sets of options stay in step: they meet the same tags, and only the guards differ. -/
theorem expandFrom_stricter (laxer : small.Laxer large) (limits : limit ≤ wider) (call : Call limit)
    {other : ExpansionStack wider} (same : call.stack.names = other.names) :
    (expandFrom small call.stack call.scope call.html call.position).Stricter
      (expandFrom large other call.scope call.html call.position) := by
  induction call using wellFounded_below.induction generalizing other with
  | _ call ih =>
    have follows {kind : CallKind} {callee : Call limit} (calls : Calls kind callee call) :=
      @ih callee (below_of_descends calls.descends)
    cases found : ComponentTag.next? call.html call.position with
    | error failure =>
      rw [expandFrom_of_error found, expandFrom_of_error found]
      exact .refl _
    | ok tag? =>
      cases tag? with
      | none =>
        rw [expandFrom_of_none found, expandFrom_of_none found]
        exact .refl _
      | some tag =>
        rw [expandFrom_of_tag found, expandFrom_of_tag found]
        refine .after _ fun _ _ => .after _ fun before _ => ?_
        refine (Stricter.lift (Registry.require_stricter laxer.registry tag.name)).bind fun component _ => ?_
        refine (arguments_stricter laxer component call.scope tag.attributes).bind fun arguments _ => ?_
        refine .after _ fun _ _ => .after _ fun inner settled => ?_
        refine (follows (.children found (Compile.yields_lift.1 settled)) same).bind fun children _ => ?_
        refine .after _ fun _ _ => ?_
        cases enters : call.stack.enter component.name with
        | error failure => exact .throw failure _
        | ok entered =>
          obtain ⟨reached, reaches, alike⟩ := enter_stricter limits same enters
          rw [reaches, Compile.lift_ok, Compile.lift_ok, pure_bind, pure_bind,
            instantiate_eq_of_texts laxer.texts]
          refine .after _ fun instance_ _ => .after _ fun template _ => ?_
          have enteredCall : Calls .template ⟨entered, arguments, template, 0⟩ call := .template enters
          refine (follows enteredCall alike).bind fun expanded _ => ?_
          exact (follows (.rest found) same).bind fun rest _ => .refl _

theorem expand_stricter (laxer : small.Laxer large) (limits : limit ≤ wider) {stack : ExpansionStack limit}
    {other : ExpansionStack wider} (same : stack.names = other.names) (scope : Scope) (html : Text) :
    (expand small stack scope html).Stricter (expand large other scope html) :=
  .after _ fun settled _ => expandFrom_stricter laxer limits ⟨stack, scope, settled, 0⟩ same

end Expansion

/-- Guards only reject, they never change a result. What compiles with a registry, strictness and a depth limit
compiles with every larger registry, laxer strictness and higher limit, to the same markup and with the same ids,
scripts and use of signals on the page. -/
theorem compilePage_of_laxer {small large : Workshop} (laxer : small.Laxer large) {limit wider : Int}
    (limits : limit ≤ wider) {stack : ExpansionStack limit} {other : ExpansionStack wider}
    (same : stack.names = other.names) {scope : Scope} {topLevel : Bool} {html result : Text} {page after : Page}
    (compiled : (compilePage small stack scope topLevel html).run page = (.ok result, after)) :
    (compilePage large other scope topLevel html).run page = (.ok result, after) := by
  have stricter :
      (compilePage small stack scope topLevel html).Stricter (compilePage large other scope topLevel html) := by
    unfold compilePage
    cases topLevel with
    | false => exact Expansion.expand_stricter laxer limits same scope html
    | true =>
      refine .after _ fun lowered _ => .after _ fun masked _ => ?_
      refine (Expansion.expand_stricter laxer limits same scope masked).bind fun expanded _ => ?_
      rw [laxer.texts]
      exact .refl _
  exact stricter page result after compiled

/-- A page that compiles under strict options at depth one, and then without them beside a further component. -/
theorem compilePage_of_laxer_card :
    ∃ (card spare : Component) (larger : Registry) (after : Page),
      (⟨[card]⟩ : Registry).add spare = .ok larger ∧
      (compilePage { registry := ⟨[card]⟩, strict := true } (ExpansionStack.empty 1) [] true "<Card n={2} />").run {} =
        (.ok "<p>3</p>", after) ∧
      (compilePage { registry := larger } (ExpansionStack.empty 2) [] true "<Card n={2} />").run {} =
        (.ok "<p>3</p>", after) := by
  let card : Definition := {
    name := "Card", quote := '\'', declaration := "n int", props := [("n", .int)], root := "p", mentions := [],
    body := .placeholder "n+1" .done }
  let library : Library := { definitions := [card], sound := by decide +kernel, distinct := by decide +kernel }
  let page : Tree := .component "Card" [⟨"n", .expression "2"⟩] true .done .done
  let spare : Component := { card.component false with name := "Spare" }
  let small : Workshop := { registry := ⟨[card.component false]⟩, strict := true }
  let large : Workshop := { registry := ⟨[card.component false, spare]⟩ }
  have added : small.registry.add spare = .ok large.registry := by rfl
  have sound : page.isSound .page false = true := by decide +kernel
  have pieces := Tree.isSound_pieces sound
  have expanded : (Expansion.expandFrom small (ExpansionStack.empty 1) [] page.print 0).Gives (some "<p>3</p>") := by
    have agrees : Expansion.Agrees small library false (ExpansionStack.empty 1) [] page.items :=
      Expansion.agrees_items (library.find?_load false) (by decide +kernel) (Tree.isSound_items sound)
        (fun outer member => nomatch member)
    have reached := agrees [] (by simp)
    rw [List.nil_append, Tree.pieces_items, ← Tree.meaning_items _ [] sound] at reached
    have means : ((page.meaning (Expansion.expander small library false (ExpansionStack.empty 1)) [] []).map
        Tree.pieces).map printPieces = some "<p>3</p>" := by decide +kernel
    rw [means] at reached
    exact reached
  have gives : (compilePage small (ExpansionStack.empty 1) [] true page.print).Gives (some "<p>3</p>") := by
    refine gives_compilePage (Signal.lower_printPieces pieces []) (Fetch.next?_printPieces pieces)
      (Conditional.settle_printPieces pieces []) expanded ?_
    intro result same
    rw [← Option.some.inj same]
    exact ⟨Option.isNone_iff_eq_none.1 (by decide +kernel), by decide +kernel⟩
  have printed : page.print = "<Card n={2} />" := by decide +kernel
  rw [printed] at gives
  have compiled : (compilePage small (ExpansionStack.empty 1) [] true "<Card n={2} />").run {} = (.ok "<p>3</p>", _) :=
    Prod.ext (eq_ok_of_toOption (gives {})) rfl
  have limits : (1 : Int) ≤ 2 := by decide
  have same : (ExpansionStack.empty 1).names = (ExpansionStack.empty 2).names := rfl
  exact ⟨card.component false, spare, large.registry, _, added, compiled,
    compilePage_of_laxer ⟨Registry.within_add added, nofun, rfl⟩ limits same compiled⟩

end ComponentPages
