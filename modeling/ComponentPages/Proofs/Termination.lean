import ComponentPages.Proofs.Compilation

/-!
Compiling a page ends. One round of settling and one round of expansion are written over the calls that they
make. With the functions themselves in place of the calls a round is the function; with nothing in their place
at depth zero, and the depth below elsewhere, the rounds unfold a compilation that may stay unfinished, and
whose definition says nothing about its end. Every unfolding that is deep enough finishes, with the result and
the page of the compilation.

The calls descend: the children of a tag are compiled on the same stack and are shorter than the text around
them, a template is compiled on a longer stack, and the search for tags moves on.
-/
namespace ComponentPages

/-- A compilation that may not have finished. -/
abbrev Unfinished := ExceptT Failure (StateT Page Option)

namespace Unfinished

variable {α β : Type}

def run (unfinished : Unfinished α) (page : Page) : Option (Except Failure α × Page) :=
  (ExceptT.run unfinished).run page

def stuck : Unfinished α := ExceptT.mk (StateT.mk fun _ => none)

/-- A compilation that is finished at once. -/
def done (compilation : Compile α) : Unfinished α := ExceptT.mk (StateT.mk fun page => some (compilation.run page))

/-- On any page the unfoldings that are deep enough agree with the compilation. -/
def Finishes (unfolding : Nat → Unfinished α) (compilation : Compile α) : Prop :=
  ∀ page, ∃ depth, ∀ n, depth ≤ n → (unfolding n).run page = some (compilation.run page)

theorem run_bind (first : Unfinished α) (second : α → Unfinished β) (page : Page) :
    (first >>= second).run page =
      match first.run page with
      | none => none
      | some (.error failure, later) => some (.error failure, later)
      | some (.ok value, later) => (second value).run later := by
  simp only [run, ExceptT.run_bind]
  cases result : StateT.run (ExceptT.run first) page with
  | none => simp [StateT.run_bind, result]
  | some reached =>
    obtain ⟨outcome, later⟩ := reached
    cases outcome <;> simp [StateT.run_bind, result]

theorem finishes_done (compilation : Compile α) : Finishes (fun _ => done compilation) compilation :=
  fun _ => ⟨0, fun _ _ => rfl⟩

theorem finishes_pure (value : α) : Finishes (fun _ => pure value) (pure value) :=
  fun _ => ⟨0, fun _ _ => rfl⟩

theorem Finishes.bind {first : Nat → Unfinished α} {second : Nat → α → Unfinished β} {whole : Compile α}
    {rest : α → Compile β} (firstFinishes : Finishes first whole)
    (secondFinishes : ∀ value, whole.Yields value → Finishes (fun n => second n value) (rest value)) :
    Finishes (fun n => first n >>= second n) (whole >>= rest) := by
  intro page
  obtain ⟨depth, reached⟩ := firstFinishes page
  cases result : whole.run page with
  | mk outcome later =>
    cases outcome with
    | error failure =>
      refine ⟨depth, fun n deep => ?_⟩
      rw [run_bind, reached n deep, Compile.run_bind, result]
    | ok value =>
      obtain ⟨further, reachedThen⟩ := secondFinishes value ⟨page, later, result⟩ later
      refine ⟨max depth further, fun n deep => ?_⟩
      rw [run_bind, reached n (by omega), Compile.run_bind, result]
      exact reachedThen n (by omega)

/-- The depth at which an unfolding starts does not matter. -/
theorem Finishes.of_succ {unfolding : Nat → Unfinished α} {compilation : Compile α}
    (finishes : Finishes (fun n => unfolding (n + 1)) compilation) : Finishes unfolding compilation := by
  intro page
  obtain ⟨depth, reached⟩ := finishes page
  refine ⟨depth + 1, fun n deep => ?_⟩
  obtain ⟨m, rfl⟩ : ∃ m, n = m + 1 := ⟨n - 1, by omega⟩
  exact reached m (by omega)

end Unfinished

section Rounds

variable {m : Type → Type} [Monad m] (embed : {α : Type} → Compile α → m α) (settle : Text → Scope → m Text)

/-- One round of settling. -/
def Conditional.round (html : Text) (scope : Scope) : m Text :=
  match seek? html with
  | none => pure html
  | some (before, found) => do
    let (conditional, rest) ← embed (Compile.lift (read before.length found))
    let branch ← embed (Compile.lift (conditional.choose scope))
    let replacement ← settle branch scope
    settle (before ++ replacement ++ rest) scope

/-- As `instantiate`. -/
def Expansion.instantiateRound (workshop : Workshop) (component : Component) (scope : Scope)
    (fills : Bindings Text) : m Text := do
  let lowered ← embed (Signal.lower component.template scope)
  let masked ← embed (mask (Slot.inject lowered fills))
  let settled ← settle masked scope
  embed do
    let substituted ← Compile.lift (Placeholder.substitute settled scope)
    Fetch.lower workshop.texts (Signal.resolve substituted)

/-- A call of the expansion. -/
structure Expansion.Call (limit : Int) where
  stack : ExpansionStack limit
  scope : Scope
  html : Text
  position : Nat

variable {limit : Int} (expand : Expansion.Call limit → m Text)

/-- One round of expansion, up to the next component tag. -/
def Expansion.round (workshop : Workshop) (call : Call limit) : m Text :=
  match ComponentTag.next? call.html call.position with
  | .error failure => embed do
    Compile.note (danglingNotes call.html call.position)
    throw failure
  | .ok none => embed do
    Compile.note (danglingNotes call.html call.position)
    Compile.lift (Placeholder.substitute (call.html.drop call.position) call.scope)
  | .ok (some tag) => do
    let (before, component, arguments) ← embed do
      Compile.note (danglingNotes call.html call.position)
      let before ← Compile.lift
        (Placeholder.substitute (Text.slice call.html call.position tag.start) call.scope)
      let component ← Compile.lift (workshop.registry.require tag.name)
      let arguments ← arguments workshop component call.scope tag.attributes
      Compile.note [.expanding tag.name arguments.length]
      pure (before, component, arguments)
    let inner ← settle tag.inner call.scope
    let children ← expand ⟨call.stack, call.scope, inner, 0⟩
    embed (Compile.note (fillNotes children))
    let entered ← embed (Compile.lift (call.stack.enter component.name))
    let instance_ ← instantiateRound embed settle workshop component arguments (Slot.fills children)
    let template ← settle instance_ arguments
    let expanded ← expand ⟨entered, arguments, template, 0⟩
    let rest ← expand { call with position := tag.stop }
    pure (before ++ expanded ++ rest)

/-- Compiling a page, over the settling and the expansion that it calls. -/
def pageRound (workshop : Workshop) (stack : ExpansionStack limit) (scope : Scope) (topLevel : Bool)
    (html : Text) : m Text :=
  if topLevel then do
    let masked ← embed (Signal.lower html scope >>= Expansion.mask)
    let settled ← settle masked scope
    let expanded ← expand ⟨stack, scope, settled, 0⟩
    embed (Fetch.unmask <$> Fetch.lower workshop.texts (Signal.resolve expanded))
  else do
    let settled ← settle html scope
    expand ⟨stack, scope, settled, 0⟩

end Rounds

/-- The text with every conditional settled, if that takes no more rounds in a row than the depth. -/
def Conditional.unfold : Nat → Text → Scope → Unfinished Text
  | 0, _, _ => Unfinished.stuck
  | depth + 1, html, scope => round Unfinished.done (Conditional.unfold depth) html scope

def Expansion.unfold {limit : Int} (workshop : Workshop) : Nat → Call limit → Unfinished Text
  | 0, _ => Unfinished.stuck
  | depth + 1, call => round Unfinished.done (Conditional.unfold depth) (Expansion.unfold workshop depth) workshop call

def unfoldPage {limit : Int} (workshop : Workshop) (depth : Nat) (stack : ExpansionStack limit) (scope : Scope)
    (topLevel : Bool) (html : Text) : Unfinished Text :=
  pageRound Unfinished.done (Conditional.unfold depth) (Expansion.unfold workshop depth) workshop stack scope
    topLevel html

namespace Conditional

/-- Settling, as a compilation. -/
def settleCompile (html : Text) (scope : Scope) : Compile Text := Compile.lift (settle html scope)

theorem settle_eq_round (html : Text) (scope : Scope) :
    settleCompile html scope = round id settleCompile html scope := by
  unfold round settleCompile
  cases sought : seek? html with
  | none =>
    rw [settle_of_none sought]
    rfl
  | some pair =>
    obtain ⟨before, found⟩ := pair
    rw [settle_of_some sought]
    simp only [Compile.lift_bind, id]

/-- What a round settles is shorter than the text, the branch and the text around its replacement alike. -/
theorem length_of_round {before found rest branch replacement : Text} {conditional : Conditional} {scope : Scope}
    (reads : read before.length found = .ok (conditional, rest)) (chosen : conditional.choose scope = .ok branch)
    (shorter : replacement.length ≤ branch.length) :
    branch.length < (before ++ found).length ∧ (before ++ replacement ++ rest).length < (before ++ found).length := by
  have whole := length_of_read reads
  have branchShorter := length_of_choose chosen
  simp only [List.length_append]
  omega

/-- A text is settled by unfolding it more often than it has characters. -/
theorem run_unfold {depth : Nat} {html : Text} (deep : html.length < depth) (scope : Scope) (page : Page) :
    (unfold depth html scope).run page = some (settle html scope, page) := by
  have run_done {α : Type} (result : Except Failure α) :
      (Unfinished.done (Compile.lift result)).run page = some (result, page) := by
    cases result <;> rfl
  induction depth generalizing html with
  | zero => omega
  | succ depth ih =>
    rw [unfold, round]
    cases sought : seek? html with
    | none =>
      rw [settle_of_none sought]
      rfl
    | some parts =>
      obtain ⟨before, found⟩ := parts
      rw [eq_of_seekFrom? sought] at deep
      rw [settle_of_some sought]
      dsimp only
      rw [Unfinished.run_bind, run_done]
      cases reads : read before.length found with
      | error failure => rfl
      | ok pair =>
        obtain ⟨conditional, rest⟩ := pair
        dsimp only
        change _ = some (conditional.choose scope >>= fun branch => settle branch scope >>= fun replacement =>
          settle (before ++ replacement ++ rest) scope, page)
        rw [Unfinished.run_bind, run_done]
        cases chosen : conditional.choose scope with
        | error failure => rfl
        | ok branch =>
          have branchShorter := (length_of_round reads chosen (Nat.le_refl branch.length)).1
          dsimp only
          rw [Unfinished.run_bind, ih (by omega)]
          change _ = some (settle branch scope >>= fun replacement => settle (before ++ replacement ++ rest) scope, page)
          cases inner : settle branch scope with
          | error failure => rfl
          | ok replacement =>
            have shorter := (length_of_round reads chosen (length_of_settle inner)).2
            exact ih (by omega)

theorem finishes_unfold (html : Text) (scope : Scope) :
    Unfinished.Finishes (fun depth => unfold depth html scope) (settleCompile html scope) := by
  refine fun page => ⟨html.length + 1, fun n deep => ?_⟩
  rw [run_unfold deep, settleCompile, Compile.run_lift]

end Conditional

namespace Expansion

variable {limit : Int}

/-- The expansion as a function of the call. -/
def answer (workshop : Workshop) (call : Call limit) : Compile Text :=
  expandFrom workshop call.stack call.scope call.html call.position

inductive CallKind where
  | children | template | rest

/-- The calls that a call makes. Of a template nothing is said but the stack that it is compiled on. -/
inductive Calls : CallKind → Call limit → Call limit → Prop
  | children {call : Call limit} {tag : ComponentTag} {inner : Text}
    (found : ComponentTag.next? call.html call.position = .ok (some tag))
    (settled : Conditional.settle tag.inner call.scope = .ok inner) :
    Calls .children ⟨call.stack, call.scope, inner, 0⟩ call
  | template {call : Call limit} {entered : ExpansionStack limit} {name template : Text} {arguments : Scope}
    (enters : call.stack.enter name = .ok entered) : Calls .template ⟨entered, arguments, template, 0⟩ call
  | rest {call : Call limit} {tag : ComponentTag}
    (found : ComponentTag.next? call.html call.position = .ok (some tag)) :
    Calls .rest { call with position := tag.stop } call

/-- How a call is smaller than the one that makes it. -/
def CallKind.Descends (callee caller : Call limit) : CallKind → Prop
  | .children => callee.stack = caller.stack ∧ callee.html.length < caller.html.length
  | .template =>
    callee.stack.names.length = caller.stack.names.length + 1 ∧ (callee.stack.names.length : Int) ≤ limit
  | .rest =>
    callee.stack = caller.stack ∧ callee.html = caller.html ∧ caller.position < callee.position ∧
      callee.position ≤ callee.html.length

theorem length_of_enter {stack entered : ExpansionStack limit} {name : Text}
    (enters : stack.enter name = .ok entered) :
    entered.names.length = stack.names.length + 1 ∧ (entered.names.length : Int) ≤ limit := by
  unfold ExpansionStack.enter at enters
  split at enters
  · cases enters
  · split at enters
    · next room =>
      obtain rfl := Except.ok.inj enters
      simp only [List.length_append, List.length_singleton, true_and]
      omega
    · cases enters

theorem Calls.descends {kind : CallKind} {callee caller : Call limit} (calls : Calls kind callee caller) :
    kind.Descends callee caller := by
  cases calls with
  | children found settled =>
    have bounds := ComponentTag.bounds_of_next? found
    have shorter := Conditional.length_of_settle settled
    exact ⟨rfl, by dsimp only; omega⟩
  | template enters => exact length_of_enter enters
  | rest found =>
    have bounds := ComponentTag.bounds_of_next? found
    exact ⟨rfl, rfl, by dsimp only; omega, bounds.2.2.1⟩

/-- What is left to do: the components that may still be entered, the text, and the rest of the text. -/
def Call.measure (call : Call limit) : Nat × Nat × Nat :=
  (call.stack.room, call.html.length, call.html.length - call.position)

def Call.Below (callee caller : Call limit) : Prop :=
  Prod.Lex (· < ·) (Prod.Lex (· < ·) (· < ·)) callee.measure caller.measure

theorem below_of_descends {kind : CallKind} {callee caller : Call limit} (descends : kind.Descends callee caller) :
    callee.Below caller := by
  cases kind with
  | children =>
    obtain ⟨stack, shorter⟩ := descends
    unfold Call.Below Call.measure
    rw [stack]
    exact .right _ (.left _ _ shorter)
  | template =>
    obtain ⟨longer, within⟩ := descends
    refine .left _ _ ?_
    simp only [ExpansionStack.room]
    omega
  | rest =>
    obtain ⟨stack, html, onward, inside⟩ := descends
    unfold Call.Below Call.measure
    rw [stack]
    rw [html] at inside ⊢
    exact .right _ (.right _ (by omega))

theorem wellFounded_below : WellFounded (@Call.Below limit) :=
  InvImage.wf Call.measure (Prod.lex Nat.lt_wfRel (Prod.lex Nat.lt_wfRel Nat.lt_wfRel)).wf

theorem answer_eq_round (workshop : Workshop) (call : Call limit) :
    answer workshop call = round id Conditional.settleCompile (answer workshop) workshop call := by
  unfold answer round
  cases found : ComponentTag.next? call.html call.position with
  | error failure => exact expandFrom_of_error found workshop call.stack call.scope
  | ok tag? =>
    cases tag? with
    | none => exact expandFrom_of_none found workshop call.stack call.scope
    | some tag =>
      rw [expandFrom_of_tag found]
      simp only [bind_assoc, pure_bind, id, instantiateRound, instantiate, Conditional.settleCompile]

/-- Every call that a round makes is among its calls: what the function in their place does elsewhere is of no
consequence. -/
theorem round_eq_of_calls (workshop : Workshop) {call : Call limit} {expand other : Call limit → Compile Text}
    (same : ∀ kind callee, Calls kind callee call → expand callee = other callee) :
    round id Conditional.settleCompile expand workshop call = round id Conditional.settleCompile other workshop call := by
  unfold round
  cases found : ComponentTag.next? call.html call.position with
  | error failure => rfl
  | ok tag? =>
    cases tag? with
    | none => rfl
    | some tag =>
      dsimp only
      refine bind_congr fun (before, component, arguments) => ?_
      dsimp only [id, Conditional.settleCompile]
      cases settled : Conditional.settle tag.inner call.scope with
      | error failure => rw [Compile.lift_error_bind, Compile.lift_error_bind]
      | ok inner =>
        rw [Compile.lift_ok, pure_bind, pure_bind, same _ _ (.children found settled)]
        refine bind_congr fun children => bind_congr fun _ => ?_
        cases enters : call.stack.enter component.name with
        | error failure => rw [Compile.lift_error_bind, Compile.lift_error_bind]
        | ok entered =>
          rw [Compile.lift_ok, pure_bind, pure_bind]
          refine bind_congr fun instance_ => bind_congr fun template => ?_
          rw [same _ _ (.template enters), same _ _ (.rest found)]

theorem finishes_instantiateRound (workshop : Workshop) (component : Component) (scope : Scope)
    (fills : Bindings Text) :
    Unfinished.Finishes
      (fun depth => instantiateRound Unfinished.done (Conditional.unfold depth) workshop component scope fills)
      (instantiateRound id Conditional.settleCompile workshop component scope fills) := by
  apply (Unfinished.finishes_done _).bind
  rintro lowered -
  apply (Unfinished.finishes_done _).bind
  rintro masked -
  apply (Conditional.finishes_unfold masked scope).bind
  rintro settled -
  exact Unfinished.finishes_done _

theorem finishes_unfold (workshop : Workshop) (call : Call limit) :
    Unfinished.Finishes (fun depth => unfold workshop depth call) (answer workshop call) := by
  induction call using wellFounded_below.induction with
  | _ call ih =>
    have finishes {kind : CallKind} {callee : Call limit} (calls : Calls kind callee call) :=
      ih callee (below_of_descends calls.descends)
    apply Unfinished.Finishes.of_succ
    rw [answer_eq_round]
    simp only [unfold, round]
    cases found : ComponentTag.next? call.html call.position with
    | error failure => exact Unfinished.finishes_done _
    | ok tag? =>
      cases tag? with
      | none => exact Unfinished.finishes_done _
      | some tag =>
        apply (Unfinished.finishes_done _).bind
        rintro ⟨before, component, arguments⟩ -
        apply (Conditional.finishes_unfold tag.inner call.scope).bind
        intro inner settled
        apply (finishes (.children found (Compile.yields_lift.1 settled))).bind
        rintro children -
        apply (Unfinished.finishes_done _).bind
        rintro ⟨⟩ -
        apply (Unfinished.finishes_done _).bind
        intro entered enters
        apply (finishes_instantiateRound workshop component arguments (Slot.fills children)).bind
        rintro instance_ -
        apply (Conditional.finishes_unfold instance_ arguments).bind
        rintro template -
        apply (finishes (.template (Compile.yields_lift.1 enters))).bind
        rintro expanded -
        apply (finishes (.rest found)).bind
        rintro rest -
        exact Unfinished.finishes_pure _

end Expansion

theorem compilePage_eq_round {limit : Int} (workshop : Workshop) (stack : ExpansionStack limit) (scope : Scope)
    (topLevel : Bool) (html : Text) :
    compilePage workshop stack scope topLevel html =
      pageRound id Conditional.settleCompile (Expansion.answer workshop) workshop stack scope topLevel html := by
  unfold compilePage pageRound
  cases topLevel with
  | true =>
    simp only [if_true, bind_assoc, id, Expansion.expand, map_eq_pure_bind, Conditional.settleCompile,
      Expansion.answer]
  | false => rfl

theorem finishes_unfoldPage {limit : Int} (workshop : Workshop) (stack : ExpansionStack limit) (scope : Scope)
    (topLevel : Bool) (html : Text) :
    Unfinished.Finishes (fun depth => unfoldPage workshop depth stack scope topLevel html)
      (compilePage workshop stack scope topLevel html) := by
  rw [compilePage_eq_round]
  simp only [unfoldPage, pageRound]
  cases topLevel with
  | true =>
    apply (Unfinished.finishes_done _).bind
    rintro masked -
    apply (Conditional.finishes_unfold masked scope).bind
    rintro settled -
    apply (Expansion.finishes_unfold workshop ⟨stack, scope, settled, 0⟩).bind
    rintro expanded -
    exact Unfinished.finishes_done _
  | false =>
    apply (Conditional.finishes_unfold html scope).bind
    rintro settled -
    exact Expansion.finishes_unfold workshop ⟨stack, scope, settled, 0⟩

/-- Compiling ends on every input. The calls of the expansion descend in the lexicographic order of the
components that may still be entered, the text, and the rest of the text; a round makes no other calls; and the
unfoldings of a page that are deep enough finish, as the compilation does. -/
theorem compilePage_finishes (workshop : Workshop) (limit : Int) :
    (∀ kind (callee caller : Expansion.Call limit), Expansion.Calls kind callee caller →
      kind.Descends callee caller ∧ callee.Below caller) ∧
    WellFounded (@Expansion.Call.Below limit) ∧
    (∀ (call : Expansion.Call limit) expand,
      (∀ kind callee, Expansion.Calls kind callee call → expand callee = Expansion.answer workshop callee) →
      Expansion.round id Conditional.settleCompile expand workshop call = Expansion.answer workshop call) ∧
    ∀ (stack : ExpansionStack limit) scope topLevel html page, ∃ depth, ∀ n, depth ≤ n →
      (unfoldPage workshop n stack scope topLevel html).run page =
        some ((compilePage workshop stack scope topLevel html).run page) := by
  refine ⟨?_, Expansion.wellFounded_below, ?_, ?_⟩
  · intro kind callee caller calls
    exact ⟨calls.descends, Expansion.below_of_descends calls.descends⟩
  · intro call expand same
    rw [Expansion.round_eq_of_calls workshop same]
    exact (Expansion.answer_eq_round workshop call).symm
  · intro stack scope topLevel html page
    exact finishes_unfoldPage workshop stack scope topLevel html page

end ComponentPages
