import ComponentPages.Proofs.Growth

/-!
Contexts in place. Here the stack of the components being expanded is no argument that a compilation hands down, but a
list of names that it changes: a name is pushed when the expansion of a component begins and popped when that ends,
also when it ends in a failure. A context keeps a record of every stack that is held. Unfolded deep enough, a
compilation in place gives what the compilation gives and leaves the page that it leaves; it gives the stack back, and
all the stacks it holds on the way have distinct names and keep to the limit. The same goes for texts compiled one
after the other on one context.
-/
namespace ComponentPages

variable {α β : Type}

/-- What compilations change in place. `held` are the stacks there were, one for each time that one was changed. -/
structure Context where
  stack : List Text
  page : Page
  held : List (List Text) := []

/-- Names as a stack holds them. -/
def AreHeld (limit : Int) (names : List Text) : Prop := names.Nodup ∧ (names.length : Int) ≤ limit

namespace Context

def hold (context : Context) (stack : List Text) : Context :=
  { context with stack, held := context.held ++ [stack] }

/-- How a context relates to what it becomes: it has its stack back, all that it held since was sound, and its page
has only grown. -/
structure Survives (limit : Int) (before after : Context) : Prop where
  stack : after.stack = before.stack
  held : ∃ held, after.held = before.held ++ held ∧ ∀ names ∈ held, AreHeld limit names
  page : before.page.Grows after.page

theorem Survives.trans {limit : Int} {first second third : Context} (survives : first.Survives limit second)
    (again : second.Survives limit third) : first.Survives limit third := by
  obtain ⟨held, since, sound⟩ := survives.held
  obtain ⟨more, later, soundThen⟩ := again.held
  refine ⟨again.stack.trans survives.stack, ⟨held ++ more, ?_, ?_⟩, survives.page.trans again.page⟩
  · rw [later, since, List.append_assoc]
  · intro names member
    exact (List.mem_append.1 member).elim (sound names) (soundThen names)

end Context

/-- A compilation in place that may not have finished. -/
abbrev InPlace := ExceptT Failure (StateT Context Option)

namespace InPlace

def run (inPlace : InPlace α) (context : Context) : Option (Except Failure α × Context) :=
  (ExceptT.run inPlace).run context

def stuck : InPlace α := ExceptT.mk (StateT.mk fun _ => none)

/-- A compilation that needs nothing but the page. -/
def done (compilation : Compile α) : InPlace α :=
  ExceptT.mk (StateT.mk fun context =>
    let (outcome, page) := compilation.run context.page
    some (outcome, { context with page }))

/-- Has a component on the stack while a block runs, and takes it off again however the block ends. -/
def expanding (limit : Int) (name : Text) (block : InPlace α) : InPlace α :=
  ExceptT.mk (StateT.mk fun context =>
    if context.stack.contains name then some (.error (.cycle context.stack name), context)
    else if (context.stack.length : Int) < limit then
      (block.run (context.hold (context.stack ++ [name]))).map fun (outcome, after) =>
        (outcome, after.hold after.stack.dropLast)
    else some (.error (.tooDeep limit name), context))

/-- What is done about a tag before its children are compiled: the text before it, its component and its arguments. -/
def prepare (workshop : Workshop) (scope : Scope) (html : Text) (position : Nat) (tag : ComponentTag) :
    Compile (Text × Component × Bindings Value) := do
  Compile.note (Expansion.danglingNotes html position)
  let before ← Compile.lift (Placeholder.substitute (Text.slice html position tag.start) scope)
  let component ← Compile.lift (workshop.registry.require tag.name)
  let arguments ← Expansion.arguments workshop component scope tag.attributes
  Compile.note [.expanding tag.name arguments.length]
  pure (before, component, arguments)

/-- A component's template with its arguments and its children in place. -/
def template (workshop : Workshop) (component : Component) (arguments : Scope) (children : Text) : Compile Text := do
  let instance_ ← Expansion.instantiate workshop component arguments (Slot.fills children)
  Compile.lift (Conditional.settle instance_ arguments)

/-- One round of expansion, up to the next component tag. -/
def round (workshop : Workshop) (limit : Int) (expand : Scope → Text → Nat → InPlace Text) (scope : Scope)
    (html : Text) (position : Nat) : InPlace Text :=
  match ComponentTag.next? html position with
  | .error failure => done do
    Compile.note (Expansion.danglingNotes html position)
    throw failure
  | .ok none => done do
    Compile.note (Expansion.danglingNotes html position)
    Compile.lift (Placeholder.substitute (html.drop position) scope)
  | .ok (some tag) => do
    let (before, component, arguments) ← done (prepare workshop scope html position tag)
    let inner ← done (Compile.lift (Conditional.settle tag.inner scope))
    let children ← expand scope inner 0
    done (Compile.note (Expansion.fillNotes children))
    let expanded ← expanding limit component.name do
      let template ← done (template workshop component arguments children)
      expand arguments template 0
    let rest ← expand scope html tag.stop
    pure (before ++ expanded ++ rest)

/-- Expands a text from an offset on, if that takes no more rounds in a row than the depth. -/
def expandFrom (workshop : Workshop) (limit : Int) : Nat → Scope → Text → Nat → InPlace Text
  | 0, _, _, _ => stuck
  | depth + 1, scope, html, position => round workshop limit (expandFrom workshop limit depth) scope html position

end InPlace

/-- A text to compile, a page or a fragment of one, with the components and options that it is compiled with. -/
structure Request where
  workshop : Workshop
  scope : Scope := []
  topLevel : Bool := true
  html : Text

/-- The compilation of a text, which is handed the stack it stands on. -/
def Request.compilation {limit : Int} (request : Request) (stack : ExpansionStack limit) : Compile Text :=
  compilePage request.workshop stack request.scope request.topLevel request.html

namespace InPlace

def compile (limit : Int) (depth : Nat) (request : Request) : InPlace Text :=
  if request.topLevel then do
    let settled ← done do
      let lowered ← Signal.lower request.html request.scope
      let masked ← Expansion.mask lowered
      Compile.lift (Conditional.settle masked request.scope)
    let expanded ← expandFrom request.workshop limit depth request.scope settled 0
    done do
      let fetched ← Fetch.lower request.workshop.texts (Signal.resolve expanded)
      pure (Fetch.unmask fetched)
  else do
    let settled ← done (Compile.lift (Conditional.settle request.html request.scope))
    expandFrom request.workshop limit depth request.scope settled 0

/-- Compiles texts one after the other on one context, and gives the outcome of each and the context that it leaves. A
failure ends the compilation of its own text only. -/
def compileAll (limit : Int) (depth : Nat) :
    List Request → Context → Option (List (Except Failure Text × Context))
  | [], _ => some []
  | request :: requests, context => do
    let reached ← (compile limit depth request).run context
    let others ← compileAll limit depth requests reached.2
    some (reached :: others)

theorem run_bind (first : InPlace α) (second : α → InPlace β) (context : Context) :
    (first >>= second).run context =
      match first.run context with
      | none => none
      | some (.error failure, later) => some (.error failure, later)
      | some (.ok value, later) => (second value).run later := by
  simp only [run, ExceptT.run_bind]
  cases result : StateT.run (ExceptT.run first) context with
  | none => simp [StateT.run_bind, result]
  | some reached =>
    obtain ⟨outcome, later⟩ := reached
    cases outcome <;> simp [StateT.run_bind, result]

/-- On the given stack the unfoldings that are deep enough agree with the compilation, leave the stack as it was, and
hold meanwhile only what a stack may hold. -/
def Mirrors {limit : Int} (stack : ExpansionStack limit) (unfolding : Nat → InPlace α) (compilation : Compile α) :
    Prop :=
  ∀ context : Context, context.stack = stack.names → ∃ depth held, (∀ names ∈ held, AreHeld limit names) ∧
    ∀ n, depth ≤ n → (unfolding n).run context =
      some ((compilation.run context.page).1,
        ⟨stack.names, (compilation.run context.page).2, context.held ++ held⟩)

namespace Mirrors

variable {limit : Int} {stack : ExpansionStack limit}

theorem done (compilation : Compile α) : Mirrors stack (fun _ => done compilation) compilation := by
  intro context same
  refine ⟨0, [], by simp, fun n _ => ?_⟩
  change some ((compilation.run context.page).1, { context with page := (compilation.run context.page).2 }) = _
  rw [List.append_nil, ← same]

theorem pure (value : α) : Mirrors stack (fun _ => Pure.pure value) (Pure.pure value) :=
  Mirrors.done (Pure.pure value)

theorem bind {first : Nat → InPlace α} {second : Nat → α → InPlace β} {whole : Compile α} {rest : α → Compile β}
    (mirrors : Mirrors stack first whole)
    (next : ∀ value, whole.Yields value → Mirrors stack (fun n => second n value) (rest value)) :
    Mirrors stack (fun n => first n >>= second n) (whole >>= rest) := by
  intro context same
  obtain ⟨depth, held, sound, reached⟩ := mirrors context same
  cases result : whole.run context.page with
  | mk outcome later =>
    rw [result] at reached
    cases outcome with
    | error failure =>
      refine ⟨depth, held, sound, fun n deep => ?_⟩
      rw [run_bind, reached n deep, Compile.run_bind_of_error result]
    | ok value =>
      obtain ⟨further, more, soundThen, reachedThen⟩ :=
        next value ⟨_, later, result⟩ ⟨stack.names, later, context.held ++ held⟩ rfl
      refine ⟨max depth further, held ++ more, ?_, fun n deep => ?_⟩
      · intro names member
        exact (List.mem_append.1 member).elim (sound names) (soundThen names)
      · rw [run_bind, reached n (by omega), Compile.run_bind_of_ok result, ← List.append_assoc]
        exact reachedThen n (by omega)

theorem of_succ {unfolding : Nat → InPlace α} {compilation : Compile α}
    (mirrors : Mirrors stack (fun n => unfolding (n + 1)) compilation) : Mirrors stack unfolding compilation := by
  intro context same
  obtain ⟨depth, held, sound, reached⟩ := mirrors context same
  refine ⟨depth + 1, held, sound, fun n deep => ?_⟩
  obtain ⟨m, rfl⟩ : ∃ m, n = m + 1 := ⟨n - 1, by omega⟩
  exact reached m (by omega)

/-- The guards of the stack are those of a stack that carries its own soundness. What is popped is what was pushed,
since the block gives back the stack that it got. -/
theorem expanding {name : Text} {block : Nat → InPlace α} {compilation : ExpansionStack limit → Compile α}
    (mirrors : ∀ entered, stack.enter name = .ok entered → Mirrors entered block (compilation entered)) :
    Mirrors stack (fun n => expanding limit name (block n)) (Compile.lift (stack.enter name) >>= compilation) := by
  intro context same
  by_cases inside : name ∈ stack.names
  · have refuses : stack.enter name = .error (.cycle stack.names name) := by
      rw [ExpansionStack.enter, dif_pos inside]
    refine ⟨0, [], by simp, fun n _ => ?_⟩
    change (if context.stack.contains name = true then _ else _) = _
    rw [refuses, same, if_pos (List.contains_iff_mem.2 inside), List.append_nil, ← same]
    rfl
  · have missing : ¬stack.names.contains name = true := fun found => inside (List.contains_iff_mem.1 found)
    by_cases room : (stack.names.length : Int) < limit
    · obtain ⟨entered, enters, names⟩ :
          ∃ entered, stack.enter name = .ok entered ∧ entered.names = stack.names ++ [name] := by
        rw [ExpansionStack.enter, dif_neg inside, dif_pos room]
        exact ⟨_, rfl, rfl⟩
      have longer := Expansion.length_of_enter enters
      obtain ⟨depth, held, sound, reached⟩ := mirrors entered enters (context.hold entered.names) rfl
      refine ⟨depth, entered.names :: (held ++ [stack.names]), ?_, fun n deep => ?_⟩
      · intro others member
        rcases List.mem_cons.1 member with rfl | later
        · exact ⟨entered.distinct, longer.2⟩
        · rcases List.mem_append.1 later with between | last
          · exact sound others between
          · rw [List.mem_singleton.1 last]
            exact ⟨stack.distinct, by omega⟩
      · change (if context.stack.contains name = true then _ else _) = _
        rw [same, if_neg missing, if_pos room, ← names, reached n deep, enters, Compile.lift_ok, pure_bind]
        have popped : entered.names.dropLast = stack.names := by rw [names, List.dropLast_concat]
        simp only [Option.map_some, Context.hold, popped, List.append_assoc, List.cons_append, List.nil_append]
    · have refuses : stack.enter name = .error (.tooDeep limit name) := by
        rw [ExpansionStack.enter, dif_neg inside, dif_neg room]
      refine ⟨0, [], by simp, fun n _ => ?_⟩
      change (if context.stack.contains name = true then _ else _) = _
      rw [refuses, same, if_neg missing, if_neg room, List.append_nil, ← same]
      rfl

end Mirrors

open Expansion (Call Calls below_of_descends answer)

/-- The expansion of a tag, cut where a round in place is cut. -/
theorem expandFrom_cut {limit : Int} {html : Text} {position : Nat} {tag : ComponentTag}
    (found : ComponentTag.next? html position = .ok (some tag)) (workshop : Workshop) (stack : ExpansionStack limit)
    (scope : Scope) :
    Expansion.expandFrom workshop stack scope html position = (do
      let (before, component, arguments) ← prepare workshop scope html position tag
      let inner ← Compile.lift (Conditional.settle tag.inner scope)
      let children ← Expansion.expandFrom workshop stack scope inner 0
      Compile.note (Expansion.fillNotes children)
      let expanded ← Compile.lift (stack.enter component.name) >>= fun entered => do
        let template ← template workshop component arguments children
        Expansion.expandFrom workshop entered arguments template 0
      let rest ← Expansion.expandFrom workshop stack scope html tag.stop
      pure (before ++ expanded ++ rest)) := by
  rw [Expansion.expandFrom_of_tag found]
  simp only [prepare, template, bind_assoc, pure_bind]

theorem mirrors_expandFrom {limit : Int} (workshop : Workshop) (call : Call limit) :
    Mirrors call.stack (fun n => expandFrom workshop limit n call.scope call.html call.position)
      (answer workshop call) := by
  induction call using Expansion.wellFounded_below.induction with
  | _ call ih =>
    have mirrors {kind : Expansion.CallKind} {callee : Call limit} (calls : Calls kind callee call) :=
      ih callee (below_of_descends calls.descends)
    apply Mirrors.of_succ
    simp only [expandFrom, round, answer]
    cases found : ComponentTag.next? call.html call.position with
    | error failure =>
      rw [Expansion.expandFrom_of_error found]
      exact .done _
    | ok tag? =>
      cases tag? with
      | none =>
        rw [Expansion.expandFrom_of_none found]
        exact .done _
      | some tag =>
        rw [expandFrom_cut found]
        refine (Mirrors.done _).bind fun prepared _ => ?_
        obtain ⟨before, component, arguments⟩ := prepared
        refine (Mirrors.done _).bind fun inner settled => ?_
        refine (mirrors (.children found (Compile.yields_lift.1 settled))).bind fun children _ => ?_
        refine (Mirrors.done _).bind fun _ _ => ?_
        refine (Mirrors.expanding fun entered enters => ?_).bind fun expanded _ => ?_
        · exact (Mirrors.done _).bind fun template _ => mirrors (.template enters)
        · exact (mirrors (.rest found)).bind fun rest _ => .pure _

/-- Compiling a text in place mirrors its compilation. -/
theorem mirrors_compile {limit : Int} (stack : ExpansionStack limit) (request : Request) :
    Mirrors stack (fun n => compile limit n request) (request.compilation stack) := by
  unfold compile Request.compilation
  cases request.topLevel with
  | false =>
    exact (Mirrors.done _).bind fun settled _ => mirrors_expandFrom request.workshop ⟨stack, request.scope, settled, 0⟩
  | true =>
    have cut : compilePage request.workshop stack request.scope true request.html = (do
        let settled ← (do
          let lowered ← Signal.lower request.html request.scope
          let masked ← Expansion.mask lowered
          Compile.lift (Conditional.settle masked request.scope))
        let expanded ← Expansion.expandFrom request.workshop stack request.scope settled 0
        let fetched ← Fetch.lower request.workshop.texts (Signal.resolve expanded)
        pure (Fetch.unmask fetched)) := by
      simp only [compilePage, if_true, Expansion.expand, bind_assoc]
    rw [cut]
    refine (Mirrors.done _).bind fun settled _ => ?_
    exact (mirrors_expandFrom request.workshop ⟨stack, request.scope, settled, 0⟩).bind fun expanded _ => .done _

end InPlace

/-- Compiles texts one after the other on one page, and gives the outcome of each and the page that it leaves. -/
def compilePages {limit : Int} (stack : ExpansionStack limit) :
    List Request → Page → List (Except Failure Text × Page)
  | [], _ => []
  | request :: requests, page =>
    let reached := (request.compilation stack).run page
    reached :: compilePages stack requests reached.2

/-- One compilation: the context survives it, and it comes to the outcome and the page of the compilation. -/
theorem InPlace.exists_run_compile {limit : Int} (stack : ExpansionStack limit) (request : Request)
    {context : Context} (same : context.stack = stack.names) :
    ∃ depth after, context.Survives limit after ∧
      (∀ n, depth ≤ n → (compile limit n request).run context =
        some (((request.compilation stack).run context.page).1, after)) ∧
      after.page = ((request.compilation stack).run context.page).2 := by
  obtain ⟨depth, held, sound, reached⟩ := mirrors_compile stack request context same
  have grows := keeps_compilePage request.workshop stack request.scope request.topLevel request.html context.page
  exact ⟨depth, _, ⟨same.symm, ⟨held, rfl, sound⟩, grows⟩, reached, rfl⟩

/-- Any number of compilations. -/
theorem InPlace.exists_compileAll {limit : Int} (stack : ExpansionStack limit) (requests : List Request)
    {context : Context} (same : context.stack = stack.names) (single : context.page.scripts.Nodup) :
    ∃ depth results, (∀ n, depth ≤ n → compileAll limit n requests context = some results) ∧
      results.map (Prod.map id Context.page) = compilePages stack requests context.page ∧
      (context :: results.map Prod.snd).Pairwise (Context.Survives limit) ∧
      ∀ result ∈ results, result.2.page.scripts.Nodup := by
  induction requests generalizing context with
  | nil => exact ⟨0, [], fun _ _ => rfl, rfl, List.pairwise_singleton _ _, by simp⟩
  | cons request requests ih =>
    let outcome := ((request.compilation stack).run context.page).1
    obtain ⟨depth, after, survives, reached, page⟩ := exists_run_compile stack request same
    have later := survives.page.distinct single
    obtain ⟨further, results, reachedThen, outcomes, chain, singles⟩ := ih (survives.stack.trans same) later
    refine ⟨max depth further, (outcome, after) :: results, fun n deep => ?_, ?_, ?_, ?_⟩
    · rw [compileAll, reached n (by omega)]
      change (compileAll limit n requests after >>= _) = _
      rw [reachedThen n (by omega)]
      rfl
    · rw [List.map_cons, outcomes, page, Prod.map, page]
      rfl
    · rw [List.map_cons]
      refine List.pairwise_cons.2 ⟨fun other member => ?_, chain⟩
      rcases List.mem_cons.1 member with rfl | rest
      · exact survives
      · exact survives.trans ((List.pairwise_cons.1 chain).1 other rest)
    · intro result member
      rcases List.mem_cons.1 member with rfl | rest
      · exact later
      · exact singles result rest

/-- A context survives every compilation, in success and in failure, and so it survives any number of them. After each
of the texts the stack is the one before; on the way it held distinct names and no more than the limit; the scripts of
the page still begin with the old ones and none is there twice, no counter of ids has gone down, and signals once needed
stay needed. The outcomes and pages are those of compiling with a stack that cannot be unsound. -/
theorem context_survives (limit : Int) (requests : List Request) (context : Context)
    (distinct : context.stack.Nodup) (within : (context.stack.length : Int) ≤ limit)
    (single : context.page.scripts.Nodup) :
    ∃ (depth : Nat) (results : List (Except Failure Text × Context)),
      (∀ n, depth ≤ n → InPlace.compileAll limit n requests context = some results) ∧
      results.map (Prod.map id Context.page) =
        compilePages (⟨context.stack, distinct, by omega⟩ : ExpansionStack limit) requests context.page ∧
      (context :: results.map Prod.snd).Pairwise (Context.Survives limit) ∧
      ∀ result ∈ results, result.2.page.scripts.Nodup :=
  InPlace.exists_compileAll ⟨context.stack, distinct, by omega⟩ requests rfl single

/-- A context in the middle of an expansion survives a component that refers to itself and, with other components, a
page that fails after one of its handlers is queued. -/
theorem context_survives_outer :
    ∃ (depth : Nat) (results : List (Except Failure Text × Context)), (∀ n, depth ≤ n →
      InPlace.compileAll 2 n
        [{ workshop := { registry := ⟨[⟨"Outer", "<b></b>", [], [], [], none⟩]⟩ }, html := "<Outer />" },
          { workshop := { registry := ⟨[]⟩ }, html := "<b onclick={$n++}></b><Nope />" }]
        { stack := ["Outer"], page := { scripts := ["alert()"] } } = some results) ∧
      ∀ result ∈ results, result.2.stack = ["Outer".toList] ∧ ["alert()".toList] <+: result.2.page.scripts ∧
        result.2.page.scripts.Nodup := by
  obtain ⟨depth, results, reached, -, survives, single⟩ := context_survives 2
      [{ workshop := { registry := ⟨[⟨"Outer", "<b></b>", [], [], [], none⟩]⟩ }, html := "<Outer />" },
        { workshop := { registry := ⟨[]⟩ }, html := "<b onclick={$n++}></b><Nope />" }]
      { stack := ["Outer"], page := { scripts := ["alert()"] } } (by decide) (by decide) (by decide)
  refine ⟨depth, results, reached, fun result member => ?_⟩
  have survived := (List.pairwise_cons.1 survives).1 result.2 (List.mem_map_of_mem member)
  exact ⟨survived.stack, survived.page.scripts, single result member⟩

end ComponentPages
