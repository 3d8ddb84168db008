import ComponentPages.Proofs.Checked.Component
import ComponentPages.Proofs.Checked.Fetch
import ComponentPages.Proofs.Checked.Signal
import ComponentPages.Proofs.Markup.Outline

/-!
Bad input only ever produces a failure. Loading components and compiling a page with them are written with checked
operations throughout: every index into a text or a list, every lookup, every list that is taken apart, every division
and the stack of the components being expanded, which is popped also when an expansion fails. Whatever the names and the
texts are, such a run does not crash; it comes back with what the compilation comes back with.
-/
namespace ComponentPages

/-- Loads components and compiles a page, or a fragment of one, with them. -/
def compileSources {limit : Int} (addScope strict : Bool) (texts : ScriptTexts) (sources : List (Text × Text))
    (stack : ExpansionStack limit) (scope : Scope) (topLevel : Bool) (html : Text) : Compile Text := do
  let registry ← Compile.lift (Registry.ofSources sources addScope)
  compilePage { registry, strict, texts } stack scope topLevel html

namespace Compile

variable {α : Type}

theorem run_tryCatch (body : Compile α) (handler : Failure → Compile α) (page : Page) :
    (tryCatch body handler).run page =
      match body.run page with
      | (.error failure, later) => (handler failure).run later
      | (.ok value, later) => (.ok value, later) := by
  change StateT.run (ExceptT.tryCatch body handler) page = _
  rw [ExceptT.tryCatch, ExceptT.mk, StateT.run_bind]
  rcases ran : body.run page with ⟨failure | value, later⟩
  · change StateT.run body page = _ at ran
    rw [ran]
    rfl
  · change StateT.run body page = _ at ran
    rw [ran]
    rfl

end Compile

namespace Guarded

variable {α : Type}

/-- Runs a computation and goes on after a failure of it, which becomes its result. -/
def attempt (guarded : Guarded Compile α) : Guarded Compile (Except Failure α) :=
  ExceptT.mk <| tryCatch (Except.map Except.ok <$> guarded.run) fun failure => pure (.ok (.error failure))

/-- A failure that is reported again after it was caught is the failure of the computation. -/
theorem attempt_embed_bind (body : Compile α) :
    (attempt (embed body) >>= fun outcome => embed (Compile.lift outcome)) = embed body := by
  apply ExceptT.ext
  refine Compile.ext_run fun page => ?_
  change (((attempt (embed body)).run : Compile _) >>= ExceptT.bindCont fun outcome => embed (Compile.lift outcome)).run page =
    (Except.ok <$> body : Compile (Checked α)).run page
  have plain : (embed body : Guarded Compile α).run = Except.ok <$> body := rfl
  rw [Compile.run_bind, attempt, ExceptT.run_mk, plain, Compile.run_tryCatch, Compile.run_map, Compile.run_map]
  rcases body.run page with ⟨failure | value, later⟩ <;> rfl

end Guarded

namespace Checked

open Guarded (embed check lift)

variable {limit : Int}

/-- A stack without the name that was pushed last. -/
def popped (names : List Text) : Checked (List Text) := if names = [] then .error .stack else .ok names.dropLast

/-- Has a component on the stack while a block runs, and takes it off again however the block ends. -/
def expanding (stack : ExpansionStack limit) (name : Text) (block : ExpansionStack limit → Guarded Compile Text) :
    Guarded Compile Text := do
  let entered ← embed (Compile.lift (stack.enter name))
  let outcome ← Guarded.attempt (block entered)
  let left ← check (popped entered.names)
  if left = stack.names then embed (Compile.lift outcome) else check (.error .stack)

/-- The arguments of a component tag, which become the scope of its template. -/
def arguments (workshop : Workshop) (component : Component) (scope : Scope) (head : Text) :
    Guarded Compile (Bindings Value) := do
  let reached := Argument.reached head scope component.props workshop.strict
  embed (Compile.note (Note.ofHead head ++ reached.filterMap Note.ofArgument?))
  lift (resolve head scope component.props workshop.strict)

/-- Hides the bodies of fetch elements from the compilation. -/
def maskPage (html : Text) : Guarded Compile Text := do
  embed (Compile.note ((Fetch.bodiesHeads html 0).flatMap Note.ofHead))
  lift (maskBodies html)

/-- A component's template with its arguments and fills in place. -/
def instantiate (workshop : Workshop) (component : Component) (scope : Scope) (fills : Bindings Text) :
    Guarded Compile Text := do
  let lowered ← lowerSignals component.template scope
  let masked ← maskPage (Slot.inject lowered fills)
  let settled ← lift (settle masked scope)
  let substituted ← lift (substitute settled scope)
  lowerFetch workshop.texts (Signal.resolve substituted) 0

/-- Expands a text from an offset on, with its conditionals settled already. -/
def expandFrom (workshop : Workshop) (stack : ExpansionStack limit) (scope : Scope) (html : Text) (position : Nat) :
    Guarded Compile Text := do
  embed (Compile.note (Expansion.danglingNotes html position))
  match ← lift (nextTag html position) with
  | none => lift (substitute (html.drop position) scope)
  | some tag =>
    let before ← lift (substitute (Text.slice html position tag.start) scope)
    let component ← lift (find workshop.registry tag.name)
    let given ← arguments workshop component scope tag.attributes
    embed (Compile.note [.expanding tag.name given.length])
    let inner ← lift (settle tag.inner scope)
    if _onward : inner.length < html.length ∧ position < tag.stop ∧ tag.stop ≤ html.length then do
      let children ← expandFrom workshop stack scope inner 0
      embed (Compile.note (Expansion.fillNotes children))
      let filled ← check (fills children)
      let expanded ← expanding stack component.name fun entered =>
        if _room : entered.room < stack.room then do
          let instance_ ← instantiate workshop component given filled
          let template ← lift (settle instance_ given)
          expandFrom workshop entered given template 0
        else check (.error .endless)
      let rest ← expandFrom workshop stack scope html tag.stop
      pure (before ++ expanded ++ rest)
    else check (.error .endless)
termination_by (stack.room, html.length, html.length - position)
decreasing_by
  · exact Prod.Lex.right _ (Prod.Lex.left _ _ _onward.1)
  · exact Prod.Lex.left _ _ _room
  · exact Prod.Lex.right _ (Prod.Lex.right _ (by omega))

/-- Expands a text in a scope. -/
def expand (workshop : Workshop) (stack : ExpansionStack limit) (scope : Scope) (html : Text) : Guarded Compile Text := do
  let settled ← lift (settle html scope)
  expandFrom workshop stack scope settled 0

/-- Compiles a page, or a fragment of one. -/
def compilePage (workshop : Workshop) (stack : ExpansionStack limit) (scope : Scope) (topLevel : Bool) (html : Text) :
    Guarded Compile Text := do
  if topLevel then
    let lowered ← lowerSignals html scope
    let masked ← maskPage lowered
    let expanded ← expand workshop stack scope masked
    let fetched ← lowerFetch workshop.texts (Signal.resolve expanded) 0
    pure (Fetch.unmask fetched)
  else expand workshop stack scope html

/-- The registry of components with given names and sources. -/
def registryOf (addScope : Bool) (sources : List (Text × Text)) : Guarded (Except Failure) Registry :=
  sources.foldlM (fun registry (name, source) => do
    let component ← load name source none addScope
    embed (registry.add component)) {}

/-- Loads components and compiles a page, or a fragment of one, with them. -/
def compileSources (addScope strict : Bool) (texts : ScriptTexts) (sources : List (Text × Text))
    (stack : ExpansionStack limit) (scope : Scope) (topLevel : Bool) (html : Text) : Guarded Compile Text := do
  let registry ← lift (registryOf addScope sources)
  compilePage { registry, strict, texts } stack scope topLevel html

theorem popped_enter {stack entered : ExpansionStack limit} {name : Text} (enters : stack.enter name = .ok entered) :
    popped entered.names = .ok stack.names := by
  have names : entered.names = stack.names ++ [name] := by
    rw [ExpansionStack.enter] at enters
    split at enters
    · cases enters
    · split at enters
      · cases enters
        rfl
      · cases enters
  rw [popped, names, if_neg (List.append_ne_nil_of_right_ne_nil _ (List.cons_ne_nil name [])), List.dropLast_concat]

theorem expanding_eq {stack : ExpansionStack limit} {name : Text} {block : ExpansionStack limit → Guarded Compile Text}
    {body : ExpansionStack limit → Compile Text}
    (sound : ∀ entered, stack.enter name = .ok entered → block entered = embed (body entered)) :
    expanding stack name block = embed (Compile.lift (stack.enter name) >>= body) := by
  rw [expanding]
  cases enters : stack.enter name with
  | error failure => rfl
  | ok entered =>
    rw [Compile.lift_ok, Guarded.embed_pure, pure_bind, pure_bind, sound entered enters,
      Guarded.check_ok (popped_enter enters)]
    refine Eq.trans (bind_congr fun outcome => ?_) (Guarded.attempt_embed_bind (body entered))
    rw [pure_bind, if_pos rfl]

theorem arguments_eq (workshop : Workshop) (component : Component) (scope : Scope) (head : Text) :
    arguments workshop component scope head = embed (Expansion.arguments workshop component scope head) := by
  rw [arguments, Expansion.arguments, Guarded.embed_bind, resolve_eq, Guarded.lift_embed]

theorem maskPage_eq (html : Text) : maskPage html = embed (Expansion.mask html) := by
  rw [maskPage, Expansion.mask, Guarded.embed_bind, maskBodies_eq, Guarded.lift_embed]

theorem instantiate_eq (workshop : Workshop) (component : Component) (scope : Scope) (fills : Bindings Text) :
    instantiate workshop component scope fills = embed (Expansion.instantiate workshop component scope fills) := by
  rw [instantiate, Expansion.instantiate, lowerSignals_eq, Guarded.embed_bind]
  refine bind_congr fun lowered => ?_
  rw [maskPage_eq, Guarded.embed_bind]
  refine bind_congr fun masked => ?_
  rw [settle_eq, Guarded.lift_embed, Guarded.embed_bind]
  refine bind_congr fun settled => ?_
  rw [substitute_eq, Guarded.lift_embed, Guarded.embed_bind]
  exact bind_congr fun substituted => lowerFetch_eq _ _ _

theorem expandFrom_eq (workshop : Workshop) (stack : ExpansionStack limit) (scope : Scope) (html : Text) (position : Nat) :
    expandFrom workshop stack scope html position = embed (Expansion.expandFrom workshop stack scope html position) := by
  rw [expandFrom, nextTag_eq, Guarded.lift_embed]
  cases found : ComponentTag.next? html position with
  | error failure =>
    rw [Expansion.expandFrom_of_error found, Guarded.embed_bind]
    rfl
  | ok tag? =>
    rw [Compile.lift_ok, Guarded.embed_pure, pure_bind]
    cases tag? with
    | none =>
      rw [Expansion.expandFrom_of_none found, Guarded.embed_bind, substitute_eq, Guarded.lift_embed]
    | some tag =>
      have bounds := ComponentTag.bounds_of_next? found
      rw [Expansion.expandFrom_of_tag found, Guarded.embed_bind]
      refine bind_congr fun _ => ?_
      dsimp only
      rw [substitute_eq, Guarded.lift_embed, Guarded.embed_bind]
      refine bind_congr fun before => ?_
      rw [find_eq, Guarded.lift_embed, Guarded.embed_bind]
      refine bind_congr fun component => ?_
      rw [arguments_eq, Guarded.embed_bind]
      refine bind_congr fun given => ?_
      rw [Guarded.embed_bind]
      refine bind_congr fun _ => ?_
      rw [settle_eq, Guarded.lift_embed, Guarded.embed_bind]
      refine Guarded.embed_bind_congr fun inner settled => ?_
      have shorter := Conditional.length_of_settle (Compile.yields_lift.1 settled)
      have onward : inner.length < html.length ∧ position < tag.stop ∧ tag.stop ≤ html.length := by omega
      have children := expandFrom_eq workshop stack scope inner 0
      have rest := expandFrom_eq workshop stack scope html tag.stop
      rw [dif_pos onward, children, Guarded.embed_bind]
      refine bind_congr fun children => ?_
      rw [Guarded.embed_bind]
      refine bind_congr fun _ => ?_
      rw [Guarded.check_ok (fills_eq children), pure_bind]
      have inside (entered : ExpansionStack limit) (enters : stack.enter component.name = .ok entered) :
          (if _room : entered.room < stack.room then (do
            let instance_ ← instantiate workshop component given (Slot.fills children)
            let template ← lift (settle instance_ given)
            expandFrom workshop entered given template 0 : Guarded Compile Text)
          else check (.error .endless)) = embed (do
            let instance_ ← Expansion.instantiate workshop component given (Slot.fills children)
            let template ← Compile.lift (Conditional.settle instance_ given)
            Expansion.expandFrom workshop entered given template 0) := by
        have room := ExpansionStack.room_of_enter enters
        rw [dif_pos room, instantiate_eq, Guarded.embed_bind]
        refine bind_congr fun instance_ => ?_
        rw [settle_eq, Guarded.lift_embed, Guarded.embed_bind]
        exact bind_congr fun template => expandFrom_eq workshop entered given template 0
      rw [expanding_eq inside, rest]
      simp only [← Guarded.embed_bind, ← Guarded.embed_pure, bind_assoc]
termination_by (stack.room, html.length, html.length - position)
decreasing_by
  · exact Prod.Lex.right _ (Prod.Lex.left _ _ onward.1)
  · exact Prod.Lex.right _ (Prod.Lex.right _ (by omega))
  · exact Prod.Lex.left _ _ room

theorem expand_eq (workshop : Workshop) (stack : ExpansionStack limit) (scope : Scope) (html : Text) :
    expand workshop stack scope html = embed (Expansion.expand workshop stack scope html) := by
  rw [expand, Expansion.expand, settle_eq, Guarded.lift_embed, Guarded.embed_bind]
  exact bind_congr fun settled => expandFrom_eq workshop stack scope settled 0

theorem compilePage_eq (workshop : Workshop) (stack : ExpansionStack limit) (scope : Scope) (topLevel : Bool)
    (html : Text) :
    compilePage workshop stack scope topLevel html =
      embed (ComponentPages.compilePage workshop stack scope topLevel html) := by
  rw [compilePage, ComponentPages.compilePage]
  cases topLevel with
  | false => exact expand_eq workshop stack scope html
  | true =>
    rw [if_pos rfl, if_pos rfl, lowerSignals_eq, Guarded.embed_bind]
    refine bind_congr fun lowered => ?_
    rw [maskPage_eq, Guarded.embed_bind]
    refine bind_congr fun masked => ?_
    rw [expand_eq, Guarded.embed_bind]
    refine bind_congr fun expanded => ?_
    rw [lowerFetch_eq, Guarded.embed_bind_pure]
    rfl

theorem registryOf_eq (addScope : Bool) (sources : List (Text × Text)) :
    registryOf addScope sources = embed (Registry.ofSources sources addScope) := by
  rw [registryOf, Registry.ofSources, Guarded.embed_foldlM]
  congr 1
  funext registry named
  cases named
  dsimp only
  rw [load_eq, Guarded.embed_bind]

theorem compileSources_eq (addScope strict : Bool) (texts : ScriptTexts) (sources : List (Text × Text))
    (stack : ExpansionStack limit) (scope : Scope) (topLevel : Bool) (html : Text) :
    compileSources addScope strict texts sources stack scope topLevel html =
      embed (ComponentPages.compileSources addScope strict texts sources stack scope topLevel html) := by
  rw [compileSources, ComponentPages.compileSources, registryOf_eq, Guarded.lift_embed, Guarded.embed_bind]
  exact bind_congr fun registry => compilePage_eq _ stack scope topLevel html

/-- Whatever the names and the texts of the components and of the page are, no operation is used where it is not
defined, and no loop runs on: loading and compiling come back with a text or with a failure, as they do without the
checks. -/
theorem compileSources_no_crash (addScope strict : Bool) (texts : ScriptTexts) (sources : List (Text × Text))
    (stack : ExpansionStack limit) (scope : Scope) (topLevel : Bool) (html : Text) (page : Page) :
    ∃ outcome later,
      Compile.run (compileSources addScope strict texts sources stack scope topLevel html).run page =
        (Except.map Except.ok outcome, later) ∧
      Compile.run (ComponentPages.compileSources addScope strict texts sources stack scope topLevel html) page =
        (outcome, later) := by
  refine ⟨_, _, ?_, rfl⟩
  rw [compileSources_eq]
  exact Compile.run_map _ _ _

end Checked

end ComponentPages
