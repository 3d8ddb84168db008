import ComponentPages.Proofs.Script.Assignment
import ComponentPages.Proofs.Termination

/-!
Compilation that lists its hooks. A hook is something a compilation writes that a script has to stand behind: the
attribute of an inline handler, the element of a signal, and a call of the signal runtime inside a script. The functions
that write hooks are written once more with the list beside their result. Without the list they are the functions
themselves.
-/
namespace ComponentPages

inductive Hook where
  | attribute (event id : Text)
  | element (name : Text)
  | call (call : Text)
deriving DecidableEq

/-- A computation that lists hooks beside its result. -/
abbrev Traced (m : Type → Type) := StateT (List Hook) m

namespace Traced

variable {m : Type → Type} [Monad m] {α β : Type}

/-- A computation that writes no hook. -/
def embed (plain : m α) : Traced m α := StateT.lift plain

def emit (hooks : List Hook) : Traced m Unit := modify (· ++ hooks)

/-- Without its hooks a computation is the plain one. -/
def Erases (traced : Traced m α) (plain : m α) : Prop := ∀ hooks, Prod.fst <$> traced.run hooks = plain

variable [LawfulMonad m]

theorem erases_pure (value : α) : Erases (pure value : Traced m α) (pure value) := by
  intro hooks
  rw [StateT.run_pure, map_pure]

theorem erases_embed (plain : m α) : Erases (embed plain) plain := by
  intro hooks
  change Prod.fst <$> (do let value ← plain; pure (value, hooks)) = plain
  rw [map_bind]
  simp only [map_pure, bind_pure]

theorem Erases.bind {first : Traced m α} {plain : m α} (erases : first.Erases plain) {second : α → Traced m β}
    {next : α → m β} (erasesThen : ∀ value, (second value).Erases (next value)) :
    (first >>= second).Erases (plain >>= next) := by
  intro hooks
  calc
    Prod.fst <$> (first >>= second).run hooks =
        (first.run hooks >>= fun (value, later) => Prod.fst <$> (second value).run later) := by
      rw [StateT.run_bind, map_bind]
    _ = (first.run hooks >>= fun (value, _) => next value) := by
      refine bind_congr fun (value, later) => erasesThen value later
    _ = plain >>= next := by rw [← erases hooks, bind_map_left]

/-- Listing hooks changes nothing. -/
theorem Erases.emit {second : Traced m α} {plain : m α} (erases : second.Erases plain) (hooks : List Hook) :
    (emit hooks >>= fun _ => second).Erases plain := by
  intro before
  change Prod.fst <$> (pure ((), before ++ hooks) >>= fun (_, later) => second.run later) = plain
  rw [pure_bind]
  exact erases (before ++ hooks)

end Traced

open Traced (embed emit)

namespace Script

/-- As `writeSignal`. -/
def traceWrite (topLevel : Bool) (name value : Text) : Traced Lowering Text := do
  let written ← embed (writeSignal topLevel name value)
  emit [.call written]
  pure written

/-- The call that an operator adds to the value of a write. -/
def operatorCalls (name : Text) (operator : Option Char) : List Text := operator.toList.map fun _ => getCall name

/-- As `lowerFrom`. -/
def traceFrom (scope : Scope) (nested : Bool) (before : Option Char) (braces : Int) (source : Text) :
    Traced Lowering Text :=
  match source with
  | [] => pure []
  | c :: tail =>
    match _taken : lexeme before c tail with
    | (found, rest) =>
      have shorter : rest.length ≤ tail.length := by
        have bound := length_lexeme_le before c tail
        rw [_taken] at bound
        exact bound
      match found with
      | .verbatim text => do
        let later ← traceFrom scope nested text.getLast? braces rest
        pure (text ++ later)
      | .binding selector every event =>
        match _closed : close? '(' ')' .code 1 rest with
        | none => embed (throw (.unclosedBinding event ((c :: tail).take 60)))
        | some (inside, after) =>
          have parts := length_of_close? _closed
          have remainder := length_afterBinding_le after
          do
          let handler ← traceFrom scope true none 0 inside
          let next := afterBinding after
          let written := bindingCall selector every (Text.lower event) (Text.trim handler)
          let later ← traceFrom scope nested next.1 braces next.2
          pure (written ++ later)
      | .increment name up => do
        embed needRuntime
        emit [.call (getCall name), .call (incrementCall name up)]
        let last := if up then '+' else '-'
        let later ← traceFrom scope nested (some last) braces rest
        pure (incrementCall name up ++ later)
      | .write name operator =>
        have sizes := length_splitValue .code 0 rest
        have trimmed := Text.length_trim_le (splitValue .code 0 rest).1
        let parts := splitValue .code 0 rest
        let raw := Text.trim parts.1
        let topLevel := !nested && braces == 0
        if raw = [] then
          embed (throw (.missingSignalValue name ((c :: tail).take (tail.length + 1 - parts.2.length))))
        else do
          embed needRuntime
          let value ← match seed? scope topLevel operator raw with
            | some literal => pure literal
            | none => traceFrom scope true none 0 raw
          emit ((operatorCalls name operator).map .call)
          let written ← traceWrite topLevel name (operated name operator value)
          let later ← traceFrom scope nested parts.1.getLast? braces parts.2
          pure (written ++ later)
      | .read name => do
        embed needRuntime
        emit [.call (getCall name)]
        let later ← traceFrom scope nested name.getLast? braces rest
        pure (getCall name ++ later)
      | .selector selector every => do
        let last := if every then some '*' else selector.getLast?
        let later ← traceFrom scope nested last braces rest
        pure (queryCall selector every ++ later)
      | .other d => do
        let braces := if d = '\x7b' then braces + 1 else if d = '\x7d' then braces - 1 else braces
        let later ← traceFrom scope nested (some d) braces rest
        pure (d :: later)
termination_by source.length
decreasing_by
  all_goals simp only [List.length_cons]
  all_goals omega

/-- As `lowerHandler`. -/
def traceHandler (scope : Scope) (body : Text) : Traced Lowering Text := do
  let body := Text.trim body
  let lowered ← traceFrom scope true none 0 body
  if isFunction body then pure lowered
  else pure ("function(event) \x7b " ++ lowered ++ " \x7d")

theorem traceWrite_erases (topLevel : Bool) (name value : Text) :
    (traceWrite topLevel name value).Erases (writeSignal topLevel name value) := by
  have whole : (traceWrite topLevel name value).Erases (writeSignal topLevel name value >>= pure) :=
    (Traced.erases_embed _).bind fun written => (Traced.erases_pure written).emit _
  rwa [bind_pure] at whole

section Lexemes

variable {before : Option Char} {c : Char} {tail rest name : Text} (scope : Scope) (nested : Bool) (braces : Int)

theorem lowerFrom_of_increment {up : Bool} (taken : lexeme before c tail = (.increment name up, rest)) :
    lowerFrom scope nested before braces (c :: tail) = (do
      needRuntime
      let later ← lowerFrom scope nested (some (if up then '+' else '-')) braces rest
      pure (incrementCall name up ++ later)) := by
  rw [lowerFrom]
  split
  next found rest' taken' =>
  rw [taken] at taken'
  cases taken'
  rfl

theorem lowerFrom_of_assignment {operator : Option Char} (taken : lexeme before c tail = (.write name operator, rest))
    (solid : Text.trim (splitValue .code 0 rest).1 ≠ []) :
    lowerFrom scope nested before braces (c :: tail) = (do
      needRuntime
      let raw := Text.trim (splitValue .code 0 rest).1
      let value ← match seed? scope (!nested && braces == 0) operator raw with
        | some literal => pure literal
        | none => lowerFrom scope true none 0 raw
      let written ← writeSignal (!nested && braces == 0) name (operated name operator value)
      let later ← lowerFrom scope nested (splitValue .code 0 rest).1.getLast? braces (splitValue .code 0 rest).2
      pure (written ++ later)) := by
  rw [lowerFrom]
  split
  next found rest' taken' =>
  rw [taken] at taken'
  cases taken'
  exact if_neg solid

theorem lowerFrom_of_selector {selector : Text} {every : Bool}
    (taken : lexeme before c tail = (.selector selector every, rest)) :
    lowerFrom scope nested before braces (c :: tail) = (do
      let later ← lowerFrom scope nested (if every then some '*' else selector.getLast?) braces rest
      pure (queryCall selector every ++ later)) := by
  rw [lowerFrom]
  split
  next found rest' taken' =>
  rw [taken] at taken'
  cases taken'
  rfl

end Lexemes

theorem traceFrom_erases (scope : Scope) (nested : Bool) (before : Option Char) (braces : Int) (source : Text) :
    (traceFrom scope nested before braces source).Erases (lowerFrom scope nested before braces source) := by
  fun_induction traceFrom scope nested before braces source with
  | case1 =>
    rw [lowerFrom]
    exact Traced.erases_pure []
  | case2 nested before braces c tail rest text taken _ shorter ih =>
    rw [lowerFrom]
    split
    next found rest' taken' =>
    rw [taken] at taken'
    cases taken'
    exact ih.bind fun later => Traced.erases_pure _
  | case3 nested before braces c tail rest selector every event taken unclosed _ shorter =>
    rw [lowerFrom]
    split
    next found rest' taken' =>
    rw [taken] at taken'
    cases taken'
    dsimp only
    split
    · exact Traced.erases_embed _
    · next closed =>
      rw [unclosed] at closed
      cases closed
  | case4 nested before braces c tail rest selector every event taken inside after closed parts remainder _ shorter handler
      others =>
    rw [lowerFrom]
    split
    next found rest' taken' =>
    rw [taken] at taken'
    cases taken'
    dsimp only
    split
    · next unclosed =>
      rw [closed] at unclosed
      cases unclosed
    · next inside' after' closed' =>
      rw [closed] at closed'
      cases closed'
      exact handler.bind fun _ => others.bind fun later => Traced.erases_pure _
  | case5 nested before braces c tail rest name up taken _ shorter ih =>
    rw [lowerFrom_of_increment scope nested braces taken]
    exact (Traced.erases_embed needRuntime).bind fun _ => (ih.bind fun later => Traced.erases_pure _).emit _
  | case6 nested before braces c tail rest name operator taken sizes trimmed parts raw empty _ shorter =>
    rw [lowerFrom]
    split
    next found rest' taken' =>
    rw [taken] at taken'
    cases taken'
    dsimp only
    rw [if_pos empty]
    exact Traced.erases_embed _
  | case7 nested before braces c tail rest name operator taken sizes trimmed parts raw topLevel solid _ shorter others value =>
    rw [lowerFrom_of_assignment scope nested braces taken solid]
    refine (Traced.erases_embed needRuntime).bind fun _ => ?_
    have rest (value : Text) : (do
        emit ((operatorCalls name operator).map .call)
        let written ← traceWrite topLevel name (operated name operator value)
        let later ← traceFrom scope nested parts.1.getLast? braces parts.2
        pure (written ++ later) : Traced Lowering Text).Erases (do
        let written ← writeSignal topLevel name (operated name operator value)
        let later ← lowerFrom scope nested parts.1.getLast? braces parts.2
        pure (written ++ later)) :=
      ((traceWrite_erases topLevel name _).bind fun written => others.bind fun later => Traced.erases_pure _).emit _
    dsimp only
    cases seed? scope topLevel operator raw with
    | some literal => exact rest literal
    | none => exact value.bind rest
  | case8 nested before braces c tail rest name taken _ shorter ih =>
    rw [lowerFrom]
    split
    next found rest' taken' =>
    rw [taken] at taken'
    cases taken'
    exact (Traced.erases_embed needRuntime).bind fun _ => (ih.bind fun later => Traced.erases_pure _).emit _
  | case9 nested before braces c tail rest selector every taken last _ shorter ih =>
    rw [lowerFrom_of_selector scope nested braces taken]
    exact ih.bind fun later => Traced.erases_pure _
  | case10 nested before braces c tail rest d taken outer _ shorter ih =>
    rw [lowerFrom_of_other taken]
    exact ih.bind fun later => Traced.erases_pure _

theorem traceHandler_erases (scope : Scope) (body : Text) :
    (traceHandler scope body).Erases (lowerHandler scope body) := by
  refine (traceFrom_erases scope true none 0 (Text.trim body)).bind fun lowered => ?_
  split
  · exact Traced.erases_pure _
  · exact Traced.erases_pure _

end Script

namespace Signal

/-- As `runLowering`; the hooks of the lowering are added to those of the page. -/
def traceLowering (found : Declarations) (lowering : Traced Lowering Text) : Traced Compile (Text × Declarations) :=
  StateT.mk fun hooks =>
    match (lowering.run hooks).run.run found with
    | (.ok (script, hooks), found) => pure ((script, found), hooks)
    | (.error failure, _) => throw failure

/-- As `queueBlocks`. -/
def traceBlocks (scope : Scope) (sources : List Text) : Traced Compile Declarations :=
  sources.foldlM (fun found source => do
    if source.all isBlank then pure found
    else
      let (script, found) ← traceLowering found (Script.traceFrom scope false none 0 source)
      embed (Compile.addScript (wrap (Text.trim script)))
      pure found) {}

/-- As `lowerPart`. -/
def tracePart (scope : Scope) (found : Declarations) : Part → Traced Compile (Text × Declarations)
  | .plain c => pure ([c], found)
  | .handler written body => do
    let event := Text.lower written
    let id ← embed (Compile.nextId "gtml-on")
    let (handler, found) ← traceLowering found (Script.traceHandler scope body)
    embed (Compile.addScript (handlerScript event id handler))
    emit [.attribute event id]
    pure (handlerAttribute event id, found)
  | .unclosed event snippet => embed (throw (.unclosedHandler event snippet))

/-- As `lowerParts`. -/
def traceParts (scope : Scope) (found : Declarations) : List Part → Traced Compile (Text × Declarations)
  | [] => pure ([], found)
  | part :: rest => do
    let (first, found) ← tracePart scope found part
    let (others, found) ← traceParts scope found rest
    pure (first ++ others, found)

/-- As `lower`. -/
def trace (html : Text) (scope : Scope) : Traced Compile Text := do
  let found ← traceBlocks scope (Pattern.values block html)
  let (lowered, found) ← traceParts scope found (parts (Pattern.erase block html))
  embed (if found.usesRuntime then Compile.needSignals else pure ())
  embed (if found.declared ≠ [] then Compile.note [.declaredSignals found.declared] else pure ())
  pure (mark lowered found.declared)

/-- As `resolve`. -/
def traceResolve (html : Text) : Traced Compile Text := do
  emit ((Pattern.values marker html).map .element)
  pure (resolve html)

section Running

variable {found later : Declarations} {traced : Traced Lowering Text} {hooks after : List Hook} {script : Text}
  {failure : Failure}

theorem run_traceLowering_of_ok (lowered : (traced.run hooks).run.run found = (.ok (script, after), later)) :
    (traceLowering found traced).run hooks = pure ((script, later), after) := by
  change (match (traced.run hooks).run.run found with
    | (.ok (script, hooks), found) => pure ((script, found), hooks)
    | (.error failure, _) => throw failure : Compile ((Text × Declarations) × List Hook)) = _
  rw [lowered]

theorem run_traceLowering_of_error (lowered : (traced.run hooks).run.run found = (.error failure, later)) :
    (traceLowering found traced).run hooks = throw failure := by
  change (match (traced.run hooks).run.run found with
    | (.ok (script, hooks), found) => pure ((script, found), hooks)
    | (.error failure, _) => throw failure : Compile ((Text × Declarations) × List Hook)) = _
  rw [lowered]

end Running

theorem traceLowering_erases (found : Declarations) {traced : Traced Lowering Text} {lowering : Lowering Text}
    (erases : traced.Erases lowering) : (traceLowering found traced).Erases (runLowering found lowering) := by
  intro hooks
  have mapped : (Prod.fst <$> traced.run hooks).run.run found =
      (((traced.run hooks).run.run found).1.map Prod.fst, ((traced.run hooks).run.run found).2) := by
    rw [map_eq_pure_bind, Lowering.run_bind]
    rcases (traced.run hooks).run.run found with ⟨outcome, later⟩
    cases outcome <;> rfl
  rw [← erases hooks, runLowering, mapped]
  rcases lowered : (traced.run hooks).run.run found with ⟨outcome, later⟩
  cases outcome with
  | error failure => rw [run_traceLowering_of_error lowered]; rfl
  | ok result => rw [run_traceLowering_of_ok lowered]; rfl

theorem traceBlocks_erases (scope : Scope) (sources : List Text) :
    (traceBlocks scope sources).Erases (queueBlocks scope sources) := by
  unfold traceBlocks queueBlocks
  generalize ({} : Declarations) = found
  induction sources generalizing found with
  | nil => exact Traced.erases_pure found
  | cons source sources ih =>
    rw [List.foldlM_cons, List.foldlM_cons]
    refine Traced.Erases.bind ?_ ih
    split
    · exact Traced.erases_pure found
    · refine (traceLowering_erases found (Script.traceFrom_erases scope false none 0 source)).bind fun _ => ?_
      exact (Traced.erases_embed _).bind fun _ => Traced.erases_pure _

theorem tracePart_erases (scope : Scope) (found : Declarations) (part : Part) :
    (tracePart scope found part).Erases (lowerPart scope found part) := by
  cases part with
  | plain c => exact Traced.erases_pure _
  | handler event body =>
    refine (Traced.erases_embed _).bind fun id => ?_
    refine (traceLowering_erases found (Script.traceHandler_erases scope body)).bind fun _ => ?_
    exact (Traced.erases_embed _).bind fun _ => (Traced.erases_pure _).emit _
  | unclosed event snippet => exact Traced.erases_embed _

theorem traceParts_erases (scope : Scope) (found : Declarations) (parts : List Part) :
    (traceParts scope found parts).Erases (lowerParts scope found parts) := by
  induction parts generalizing found with
  | nil => exact Traced.erases_pure _
  | cons part parts ih =>
    exact (tracePart_erases scope found part).bind fun _ => (ih _).bind fun _ => Traced.erases_pure _

theorem trace_erases (html : Text) (scope : Scope) : (trace html scope).Erases (lower html scope) := by
  refine (traceBlocks_erases scope _).bind fun _ => (traceParts_erases scope _ _).bind fun (lowered, found) => ?_
  have written : (do
      embed (if found.declared ≠ [] then Compile.note [.declaredSignals found.declared] else pure ())
      pure (mark lowered found.declared) : Traced Compile Text).Erases (do
      if found.declared ≠ [] then Compile.note [.declaredSignals found.declared]
      pure (mark lowered found.declared)) := by
    by_cases declares : found.declared ≠ []
    · simp only [if_pos declares]
      exact (Traced.erases_embed _).bind fun _ => Traced.erases_pure _
    · simp only [if_neg declares]
      exact (Traced.erases_embed (pure ())).bind fun _ => Traced.erases_pure _
  cases uses : found.usesRuntime with
  | true =>
    simp only [uses, if_true]
    exact (Traced.erases_embed _).bind fun _ => written
  | false =>
    simp only [uses, Bool.false_eq_true, if_false]
    exact (Traced.erases_embed (pure ())).bind fun _ => written

theorem traceResolve_erases (html : Text) : (traceResolve html).Erases (pure (resolve html)) :=
  (Traced.erases_pure _).emit _

end Signal

namespace Expansion

variable {limit : Int}

/-- As `instantiate`. -/
def traceInstantiate (workshop : Workshop) (component : Component) (scope : Scope) (fills : Bindings Text) :
    Traced Compile Text := do
  let lowered ← Signal.trace component.template scope
  let masked ← embed (mask (Slot.inject lowered fills))
  let settled ← embed (Compile.lift (Conditional.settle masked scope))
  let substituted ← embed (Compile.lift (Placeholder.substitute settled scope))
  let resolved ← Signal.traceResolve substituted
  embed (Fetch.lower workshop.texts resolved)

/-- As `expandFrom`. -/
def traceFrom (workshop : Workshop) (stack : ExpansionStack limit) (scope : Scope) (html : Text) (position : Nat) :
    Traced Compile Text :=
  match _found : ComponentTag.next? html position with
  | .error failure => embed do
    Compile.note (danglingNotes html position)
    throw failure
  | .ok none => embed do
    Compile.note (danglingNotes html position)
    Compile.lift (Placeholder.substitute (html.drop position) scope)
  | .ok (some tag) =>
    have _bounds := ComponentTag.bounds_of_next? _found
    do
    embed (Compile.note (danglingNotes html position))
    let before ← embed (Compile.lift (Placeholder.substitute (Text.slice html position tag.start) scope))
    let component ← embed (Compile.lift (workshop.registry.require tag.name))
    let arguments ← embed (arguments workshop component scope tag.attributes)
    embed (Compile.note [.expanding tag.name arguments.length])
    let inner ← embed (Compile.lift (Conditional.reduce tag.inner scope))
    have _shorter := inner.property
    let children ← traceFrom workshop stack scope inner.val 0
    embed (Compile.note (fillNotes children))
    match _enters : stack.enter component.name with
    | .error failure => embed (throw failure)
    | .ok entered =>
      have _room := ExpansionStack.room_of_enter _enters
      let instance_ ← traceInstantiate workshop component arguments (Slot.fills children)
      let template ← embed (Compile.lift (Conditional.settle instance_ arguments))
      let expanded ← traceFrom workshop entered arguments template 0
      let rest ← traceFrom workshop stack scope html tag.stop
      pure (before ++ expanded ++ rest)
termination_by (stack.room, html.length, html.length - position)
decreasing_by
  · exact Prod.Lex.right _ (Prod.Lex.left _ _ (by omega))
  · exact Prod.Lex.left _ _ _room
  · exact Prod.Lex.right _ (Prod.Lex.right _ (by omega))

/-- As `expand`. -/
def trace (workshop : Workshop) (stack : ExpansionStack limit) (scope : Scope) (html : Text) : Traced Compile Text := do
  let settled ← embed (Compile.lift (Conditional.settle html scope))
  traceFrom workshop stack scope settled 0

theorem traceInstantiate_erases (workshop : Workshop) (component : Component) (scope : Scope) (fills : Bindings Text) :
    (traceInstantiate workshop component scope fills).Erases (instantiate workshop component scope fills) := by
  refine (Signal.trace_erases _ _).bind fun lowered => (Traced.erases_embed _).bind fun masked => ?_
  refine (Traced.erases_embed _).bind fun settled => (Traced.erases_embed _).bind fun substituted => ?_
  rw [← pure_bind (Signal.resolve substituted) (Fetch.lower workshop.texts)]
  exact (Signal.traceResolve_erases substituted).bind fun resolved => Traced.erases_embed _

section Equations

variable {html : Text} {position : Nat} (workshop : Workshop) (stack : ExpansionStack limit) (scope : Scope)

theorem traceFrom_of_error {failure : Failure} (found : ComponentTag.next? html position = .error failure) :
    traceFrom workshop stack scope html position = embed (do
      Compile.note (danglingNotes html position)
      throw failure) := by
  rw [traceFrom]
  split
  · next found' =>
    rw [found] at found'
    cases found'
    rfl
  · next found' =>
    rw [found] at found'
    cases found'
  · next found' =>
    rw [found] at found'
    cases found'

theorem traceFrom_of_none (found : ComponentTag.next? html position = .ok none) :
    traceFrom workshop stack scope html position = embed (do
      Compile.note (danglingNotes html position)
      Compile.lift (Placeholder.substitute (html.drop position) scope)) := by
  rw [traceFrom]
  split
  · next found' =>
    rw [found] at found'
    cases found'
  · rfl
  · next found' =>
    rw [found] at found'
    cases found'

theorem embed_lift_error_bind {α β : Type} (failure : Failure) (next : α → Traced Compile β) :
    embed (Compile.lift (.error failure)) >>= next = embed (throw failure) :=
  rfl

theorem embed_lift_ok_bind {α β : Type} (value : α) (next : α → Traced Compile β) :
    embed (Compile.lift (.ok value)) >>= next = next value :=
  rfl

theorem traceFrom_of_tag {tag : ComponentTag} (found : ComponentTag.next? html position = .ok (some tag)) :
    traceFrom workshop stack scope html position = (do
      embed (Compile.note (danglingNotes html position))
      let before ← embed (Compile.lift (Placeholder.substitute (Text.slice html position tag.start) scope))
      let component ← embed (Compile.lift (workshop.registry.require tag.name))
      let arguments ← embed (arguments workshop component scope tag.attributes)
      embed (Compile.note [.expanding tag.name arguments.length])
      let inner ← embed (Compile.lift (Conditional.settle tag.inner scope))
      let children ← traceFrom workshop stack scope inner 0
      embed (Compile.note (fillNotes children))
      let entered ← embed (Compile.lift (stack.enter component.name))
      let instance_ ← traceInstantiate workshop component arguments (Slot.fills children)
      let template ← embed (Compile.lift (Conditional.settle instance_ arguments))
      let expanded ← traceFrom workshop entered arguments template 0
      let rest ← traceFrom workshop stack scope html tag.stop
      pure (before ++ expanded ++ rest)) := by
  rw [traceFrom]
  split
  · next found' =>
    rw [found] at found'
    cases found'
  · next found' =>
    rw [found] at found'
    cases found'
  · next tag' found' =>
    rw [found] at found'
    cases found'
    refine bind_congr fun _ => bind_congr fun before => bind_congr fun component => bind_congr fun arguments =>
      bind_congr fun _ => ?_
    rw [Conditional.settle]
    cases Conditional.reduce tag.inner scope with
    | error failure => rfl
    | ok inner =>
      rw [Except.map, embed_lift_ok_bind, embed_lift_ok_bind]
      refine bind_congr fun children => bind_congr fun _ => ?_
      split
      · next failure enters =>
        conv => rhs; rw [enters]
        rfl
      · next entered enters =>
        conv => rhs; rw [enters]
        rfl

end Equations

theorem traceFrom_erases (workshop : Workshop) (call : Call limit) :
    (traceFrom workshop call.stack call.scope call.html call.position).Erases
      (expandFrom workshop call.stack call.scope call.html call.position) := by
  induction call using wellFounded_below.induction with
  | _ call ih =>
    have erases {kind : CallKind} {callee : Call limit} (calls : Calls kind callee call) :=
      ih callee (below_of_descends calls.descends)
    cases found : ComponentTag.next? call.html call.position with
    | error failure =>
      rw [expandFrom_of_error found, traceFrom_of_error _ _ _ found]
      exact Traced.erases_embed _
    | ok tag? =>
      cases tag? with
      | none =>
        rw [expandFrom_of_none found, traceFrom_of_none _ _ _ found]
        exact Traced.erases_embed _
      | some tag =>
        rw [expandFrom_of_tag found, traceFrom_of_tag _ _ _ found]
        refine (Traced.erases_embed _).bind fun _ => (Traced.erases_embed _).bind fun before => ?_
        refine (Traced.erases_embed _).bind fun component => (Traced.erases_embed _).bind fun arguments => ?_
        refine (Traced.erases_embed _).bind fun _ => ?_
        cases settled : Conditional.settle tag.inner call.scope with
        | error failure =>
          rw [embed_lift_error_bind, Compile.lift_error_bind]
          exact Traced.erases_embed _
        | ok inner =>
          rw [embed_lift_ok_bind, Compile.lift_ok, pure_bind]
          refine (erases (.children found settled)).bind fun children => (Traced.erases_embed _).bind fun _ => ?_
          cases enters : call.stack.enter component.name with
          | error failure =>
            rw [embed_lift_error_bind, Compile.lift_error_bind]
            exact Traced.erases_embed _
          | ok entered =>
            rw [embed_lift_ok_bind, Compile.lift_ok, pure_bind]
            refine (traceInstantiate_erases _ _ _ _).bind fun _ => (Traced.erases_embed _).bind fun template => ?_
            have enteredCall : Calls .template ⟨entered, arguments, template, 0⟩ call := .template enters
            refine (erases enteredCall).bind fun _ => ?_
            exact (erases (.rest found)).bind fun _ => Traced.erases_pure _

theorem trace_erases (workshop : Workshop) (stack : ExpansionStack limit) (scope : Scope) (html : Text) :
    (trace workshop stack scope html).Erases (expand workshop stack scope html) :=
  (Traced.erases_embed _).bind fun settled => traceFrom_erases workshop ⟨stack, scope, settled, 0⟩

end Expansion

/-- As `compilePage`. -/
def tracePage {limit : Int} (workshop : Workshop) (stack : ExpansionStack limit) (scope : Scope) (topLevel : Bool)
    (html : Text) : Traced Compile Text :=
  if topLevel then do
    let lowered ← Signal.trace html scope
    let masked ← embed (Expansion.mask lowered)
    let expanded ← Expansion.trace workshop stack scope masked
    let resolved ← Signal.traceResolve expanded
    let fetched ← embed (Fetch.lower workshop.texts resolved)
    pure (Fetch.unmask fetched)
  else Expansion.trace workshop stack scope html

/-- Without its hooks the compilation of a page is the compilation. -/
theorem tracePage_erases {limit : Int} (workshop : Workshop) (stack : ExpansionStack limit) (scope : Scope)
    (topLevel : Bool) (html : Text) :
    (tracePage workshop stack scope topLevel html).Erases (compilePage workshop stack scope topLevel html) := by
  unfold tracePage compilePage
  split
  · refine (Signal.trace_erases html scope).bind fun _ => (Traced.erases_embed _).bind fun masked => ?_
    refine (Expansion.trace_erases _ _ _ masked).bind fun expanded => ?_
    rw [← pure_bind (Signal.resolve expanded) fun resolved => Fetch.lower workshop.texts resolved >>= _]
    refine (Signal.traceResolve_erases expanded).bind fun _ => (Traced.erases_embed _).bind fun _ => ?_
    exact Traced.erases_pure _
  · exact Expansion.trace_erases workshop stack scope html

end ComponentPages
