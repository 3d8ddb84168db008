import ComponentPages.Proofs.Hook.Backing
import ComponentPages.Proofs.Markup.Inert

/-!
Every hook of a page is backed by a script. A compilation carries what stands behind the hooks from its beginning to its
end: one lemma for each pass, the expansion by induction on its calls, and the page from both.
-/
namespace ComponentPages

open Traced (embed emit)
open Hook (Signaled)
open Signal (Backed Marked MarkedScope markerOpen)

variable {α β : Type}

namespace Traced

/-- On a page whose hooks are backed, with the hooks of `base` among them, a compilation that comes back has only added
hooks, leaves them backed, and its result is as told. -/
def Carries (base : List Hook) (found : Declarations) (traced : Traced Compile α) (later : α → Declarations)
    (fact : List Hook → α → Prop) : Prop :=
  ∀ hooks page value after final, base ⊆ hooks → Backed found page hooks →
    (traced.run hooks).run page = (.ok (value, after), final) →
    hooks ⊆ after ∧ Backed (later value) final after ∧ fact after value

/-- The same outside of a template. -/
abbrev Backs (base : List Hook) (traced : Traced Compile α) (fact : List Hook → α → Prop) : Prop :=
  Carries base {} traced (fun _ => {}) fact

variable {base : List Hook} {found : Declarations} {later : α → Declarations} {fact : List Hook → α → Prop}

theorem carries_pure {value : α} (same : later value = found) (holds : ∀ hooks, base ⊆ hooks → fact hooks value) :
    Carries base found (pure value) later fact := by
  intro hooks page result after final subset backed ran
  cases ran
  exact ⟨List.Subset.refl hooks, same ▸ backed, holds hooks subset⟩

theorem carries_throw (failure : Failure) : Carries base found (embed (throw failure)) later fact := by
  intro hooks page value after final _ _ ran
  cases ran

theorem Carries.bind {traced : Traced Compile α} (carries : Carries base found traced later fact)
    {next : α → Traced Compile β} {last : β → Declarations} {conclusion : List Hook → β → Prop}
    (carries' : ∀ hooks value, base ⊆ hooks → fact hooks value → Carries hooks (later value) (next value) last conclusion) :
    Carries base found (traced >>= next) last conclusion := by
  intro hooks page result after final subset backed ran
  rw [StateT.run_bind, Compile.run_bind] at ran
  rcases first : (traced.run hooks).run page with ⟨outcome, between⟩
  rw [first] at ran
  cases outcome with
  | error failure => cases ran
  | ok reached =>
    obtain ⟨value, middle⟩ := reached
    obtain ⟨grows, still, holds⟩ := carries hooks page value middle between subset backed first
    obtain ⟨more, backedAfter, concludes⟩ := carries' middle value (List.Subset.trans subset grows) holds middle between
      result after final (List.Subset.refl middle) still ran
    exact ⟨List.Subset.trans grows more, backedAfter, concludes⟩

theorem Carries.mono {traced : Traced Compile α} (carries : Carries base found traced later fact)
    {other : List Hook → α → Prop} (implies : ∀ hooks value, base ⊆ hooks → fact hooks value → other hooks value) :
    Carries base found traced later other := by
  intro hooks page value after final subset backed ran
  obtain ⟨grows, still, holds⟩ := carries hooks page value after final subset backed ran
  exact ⟨grows, still, implies after value (List.Subset.trans subset grows) holds⟩

/-- What a template has declared so far has a first value. -/
theorem Carries.declared {traced : Traced Compile α} (carries : Carries base found traced later fact) :
    Carries base found traced later fun hooks value =>
      fact hooks value ∧ ∀ name ∈ (later value).declared, Signaled hooks name := by
  intro hooks page value after final subset backed ran
  obtain ⟨grows, still, holds⟩ := carries hooks page value after final subset backed ran
  exact ⟨grows, still, holds, still.supported.declared⟩

theorem carries_embed {compilation : Compile α} {told : α → Prop} (spares : compilation.Spares told) :
    Carries base found (embed compilation) (fun _ => found) fun _ value => told value := by
  intro hooks page value after final _ backed ran
  obtain ⟨spared, holds⟩ := spares page
  change (compilation >>= fun value => pure (value, hooks)).run page = _ at ran
  rw [Compile.run_bind] at ran
  rcases first : compilation.run page with ⟨outcome, between⟩
  rw [first] at ran spared holds
  cases outcome with
  | error failure => cases ran
  | ok reached =>
    cases ran
    exact ⟨List.Subset.refl hooks, backed.spare spared, holds value rfl⟩

/-- What writes no hook leaves those of the beginning as they are. -/
theorem carries_embed_bind {compilation : Compile α} {told : α → Prop} (spares : compilation.Spares told)
    {next : α → Traced Compile β} {last : β → Declarations} {conclusion : List Hook → β → Prop}
    (carries : ∀ value, told value → Carries base found (next value) last conclusion) :
    Carries base found (embed compilation >>= next) last conclusion :=
  (carries_embed spares).bind fun _ value subset told hooks page result after final grows =>
    carries value told hooks page result after final (List.Subset.trans subset grows)

end Traced

open Traced (Carries Backs carries_pure carries_throw carries_embed carries_embed_bind)

theorem Signal.Marked.known {base hooks : List Hook} (subset : base ⊆ hooks) {text : Text} (marked : Marked (Signaled base) text) :
    Marked (Signaled hooks) text :=
  marked.mono fun _ signaled => signaled.mono subset

theorem Signal.MarkedScope.known {base hooks : List Hook} (subset : base ⊆ hooks) {scope : Scope}
    (marked : MarkedScope (Signaled base) scope) : MarkedScope (Signaled hooks) scope :=
  marked.mono fun _ signaled => signaled.mono subset

/-- What a bracket closes is followed by the rest of the text. -/
theorem Script.suffix_of_close? {opening closing : Char} {state : ScriptState} {depth : Nat} {text inside after : Text}
    (closed : close? opening closing state depth text = some (inside, after)) : after <:+ text := by
  induction text generalizing state depth inside with
  | nil => cases closed
  | cons c rest ih =>
    unfold close? at closed
    split at closed
    · cases closed
      exact List.suffix_cons c _
    · obtain ⟨⟨first, second⟩, later, same⟩ := Option.map_eq_some_iff.1 closed
      cases same
      exact (ih later).trans (List.suffix_cons c rest)

namespace Signal

variable {base : List Hook} {found : Declarations}

/-- What a script is lowered to, with the page as it was. -/
theorem exists_of_traceLowering {traced : Traced Lowering Text} (lists : Script.Lists false traced Script.Told)
    {hooks after : List Hook} {page final : Page} {script : Text} {later : Declarations}
    (ran : ((traceLowering found traced).run hooks).run page = (.ok ((script, later), after), final)) :
    final = page ∧ ∃ calls, after = hooks ++ calls.map .call ∧ Script.Records found later calls ∧ Script.Told calls script := by
  rcases lowered : (traced.run hooks).run.run found with ⟨outcome, reached⟩
  cases outcome with
  | error failure =>
    rw [run_traceLowering_of_error lowered] at ran
    cases ran
  | ok result =>
    rw [run_traceLowering_of_ok lowered] at ran
    cases ran
    exact ⟨rfl, lists _ _ _ _ _ (fun impossible => by cases impossible) lowered⟩

/-- A script block. -/
theorem carries_block {traced : Traced Lowering Text} (lists : Script.Lists false traced Script.Told) :
    Carries base found (do
      let (script, found) ← traceLowering found traced
      embed (Compile.addScript (wrap (Text.trim script)))
      pure found) id fun _ _ => True := by
  intro hooks page later after final _ backed ran
  rw [StateT.run_bind, Compile.run_bind] at ran
  rcases lowered : ((traceLowering found traced).run hooks).run page with ⟨outcome, between⟩
  rw [lowered] at ran
  cases outcome with
  | error failure => cases ran
  | ok result =>
    obtain ⟨rfl, calls, listed, records, told⟩ := exists_of_traceLowering lists lowered
    cases ran
    rw [listed]
    have wrapped : Script.Told calls (wrap (Text.trim result.1.1)) := (told.trim.behind _).before _
    exact ⟨List.subset_append_left hooks _, ⟨backed.installed.block (selected?_wrap _) calls,
      backed.supported.queue records wrapped⟩, trivial⟩

theorem carries_traceBlocks (scope : Scope) (sources : List Text) :
    Carries base {} (traceBlocks scope sources) id fun _ _ => True := by
  unfold traceBlocks
  generalize ({} : Declarations) = found
  induction sources generalizing found base with
  | nil => exact carries_pure rfl fun _ _ => trivial
  | cons source sources ih =>
    rw [List.foldlM_cons]
    refine Carries.bind (?_ : Carries _ _ _ id fun _ _ => True) fun _ _ _ _ => ih _
    split
    · exact carries_pure rfl fun _ _ => trivial
    · exact carries_block (Script.lists_traceFrom scope false none 0 source)

/-- The parts that a template without markers falls into. -/
def Part.IsSound : Part → Prop
  | .plain c => c ≠ markerOpen
  | .handler event _ => IsEvent event
  | .unclosed _ _ => True

theorem isSound_of_mem_partsFrom {blocks : List Span} {html text : Text} {offset : Nat} {before : Option Char}
    (unmarked : markerOpen ∉ text) : ∀ part ∈ partsFrom blocks html offset before text, part.IsSound := by
  have started {offset : Nat} {before : Option Char} {text event body : Text}
      (starts : handlerHere? blocks html offset before text = some (event, body)) : IsEvent event ∧ body <:+ text := by
    obtain ⟨left, right, named, -, -, whole⟩ := handlerStart_eq_some_iff.1 (handlerHere?_eq_some_iff.1 starts).2.1
    exact ⟨named, event ++ left ++ '=' :: right ++ ['\x7b'], by rw [whole]; simp⟩
  fun_induction partsFrom blocks html offset before text with
  | case1 => exact List.forall_mem_nil _
  | case2 offset before c rest nothing ih =>
    rw [List.mem_cons, not_or] at unmarked
    exact List.forall_mem_cons.2 ⟨fun same => unmarked.1 same.symm, ih unmarked.2⟩
  | case3 => exact List.forall_mem_singleton.2 trivial
  | case4 offset before c rest event body starts inside after closed ih =>
    obtain ⟨named, suffix⟩ := started starts
    have within := (Script.suffix_of_close? closed).trans suffix
    exact List.forall_mem_cons.2 ⟨named, ih fun member => unmarked (within.subset member)⟩

theorem unmarked_handlerAttribute {event : Text} (named : IsEvent event) (number : Nat) :
    markerOpen ∉ handlerAttribute (Text.lower event) (handlerId number) := by
  have inEvent : markerOpen ∉ Text.lower event := fun member =>
    absurd (isTagNamePart_of_mem_lower named _ member) (by decide)
  have inId : markerOpen ∉ handlerId number := by
    intro member
    rcases List.mem_append.1 member with stem | digits
    · exact absurd stem (by decide)
    · exact absurd (Text.isDigit_of_mem_ofNat digits) (by decide)
  have front := Fetch.unmarked_append (by decide : markerOpen ∉ ("data-gtml-" : Text)) inEvent
  have opened := Fetch.unmarked_append front (by decide : markerOpen ∉ ("='" : Text))
  exact Fetch.unmarked_append (Fetch.unmarked_append opened inId) (by decide : markerOpen ∉ ("'" : Text))

/-- A handler takes the next id, queues its script and writes its attribute. -/
theorem carries_tracePart (scope : Scope) {part : Part} (sound : part.IsSound) :
    Carries base found (tracePart scope found part) Prod.snd fun _ result => markerOpen ∉ result.1 := by
  cases part with
  | plain c => exact carries_pure rfl fun _ _ member => sound (List.mem_singleton.1 member).symm
  | unclosed event snippet => exact carries_throw _
  | handler event body =>
    intro hooks page result after final _ backed ran
    change ((do
      let (handler, found) ← traceLowering found (Script.traceHandler scope body)
      embed (Compile.addScript (handlerScript (Text.lower event) (page.ids.next "gtml-on").1 handler))
      emit [.attribute (Text.lower event) (page.ids.next "gtml-on").1]
      pure (handlerAttribute (Text.lower event) (page.ids.next "gtml-on").1, found)).run hooks).run
        { page with ids := (page.ids.next "gtml-on").2 } = _ at ran
    rw [StateT.run_bind, Compile.run_bind] at ran
    rcases lowered : ((traceLowering found (Script.traceHandler scope body)).run hooks).run
      { page with ids := (page.ids.next "gtml-on").2 } with ⟨outcome, between⟩
    rw [lowered] at ran
    cases outcome with
    | error failure => cases ran
    | ok result =>
      obtain ⟨rfl, calls, listed, records, told⟩ := exists_of_traceLowering (Script.lists_traceHandler scope body) lowered
      cases ran
      rw [listed]
      have drawn : Supported found { page with ids := (page.ids.next "gtml-on").2 } hooks := ⟨backed.supported.calls,
        backed.supported.elements, backed.supported.needs, backed.supported.declared⟩
      have installs := told.within (Script.infix_forEach
        ("document.querySelectorAll(\"[" ++ handlerAttribute (Text.lower event) (page.ids.next "gtml-on").1 ++ "]\")")
        (Text.lower event) result.1.1)
      refine ⟨?_, ⟨backed.installed.handler (equals_not_mem_lower sound) calls _, (drawn.queue records installs).attribute _ _⟩, ?_⟩
      · exact List.Subset.trans (List.subset_append_left hooks _) (List.subset_append_left _ _)
      · rw [next_handlerId]
        exact unmarked_handlerAttribute sound _

theorem carries_traceParts (scope : Scope) {parts : List Part} (sound : ∀ part ∈ parts, part.IsSound) :
    Carries base found (traceParts scope found parts) Prod.snd fun _ result => markerOpen ∉ result.1 := by
  induction parts generalizing found base with
  | nil => exact carries_pure rfl fun _ _ => List.not_mem_nil
  | cons part parts ih =>
    refine (carries_tracePart scope (sound part List.mem_cons_self)).bind fun _ first _ front => ?_
    refine (ih fun other member => sound other (List.mem_cons_of_mem part member)).bind fun _ others _ back => ?_
    exact carries_pure rfl fun _ _ => Fetch.unmarked_append front back

theorem isIdentifier_of_placeholder {text name rest : Text} (reads : placeholder text = some (name, rest)) :
    Text.isIdentifier name = true := by
  simp only [placeholder, bind, Option.bind_eq_some_iff, Prod.exists, Option.some.injEq, Prod.mk.injEq] at reads
  obtain ⟨opened, -, word, afterWord, named, -, -, rfl, -⟩ := reads
  exact (Pattern.eq_of_identifier named).2

theorem marked_mark {known : Text → Prop} {html : Text} {names : List Text} (unmarked : markerOpen ∉ html)
    (knows : ∀ name ∈ names, known name) : Marked known (mark html names) := by
  unfold mark
  split
  · exact marked_of_not_mem unmarked
  · rw [List.flatMap_def]
    refine marked_flatten fun piece member => ?_
    obtain ⟨⟨offset, segment⟩, here, rfl⟩ := List.mem_map.1 member
    have inText := Pattern.mem_of_mem_located here
    have subset : segment.source ⊆ html := by
      intro c inSource
      rw [← Pattern.flatMap_source_segments placeholder html]
      exact List.mem_flatMap.2 ⟨segment, inText, inSource⟩
    have kept : Marked known segment.source := marked_of_not_mem fun member => unmarked (subset member)
    cases segment with
    | plain c => exact kept
    | hit source name =>
      dsimp only
      split
      · next reached =>
        rw [Bool.and_eq_true, List.contains_iff_mem] at reached
        obtain ⟨front, rest, -, reads, -⟩ := Pattern.exists_of_hit inText
        have identifier := isIdentifier_of_placeholder reads
        refine ⟨fun _ => ⟨name, [], identifier, knows name reached.1, rfl⟩, marked_of_not_mem ?_⟩
        refine Fetch.unmarked_append (fun inName => ?_) (by decide)
        exact absurd ((isIdentifierPart_of_isIdentifier identifier).2 _ inName) (by decide)
      · exact kept

theorem subset_erase {γ : Type} (read : Pattern γ) (text : Text) : Pattern.erase read text ⊆ text := by
  intro c member
  obtain ⟨segment, here, written⟩ := List.mem_flatMap.1 member
  rw [← Pattern.flatMap_source_segments read text]
  cases segment with
  | plain d => exact List.mem_flatMap.2 ⟨.plain d, here, written⟩
  | hit source value => cases written

/-- The end of a template: the page needs the runtime if the template does. -/
theorem carries_needSignals (found : Declarations) :
    Carries base found (embed (if found.usesRuntime then Compile.needSignals else pure ())) (fun _ => {}) fun _ _ => True := by
  intro hooks page value after final _ backed ran
  have supported (later : Page) (scripts : later.scripts = page.scripts)
      (needs : ∀ call, .call call ∈ hooks → later.usesSignals = true) : Supported {} later hooks := by
    refine ⟨?_, backed.supported.elements, fun call member => .inl (needs call member), List.forall_mem_nil _⟩
    rw [scripts]
    exact backed.supported.calls
  cases uses : found.usesRuntime with
  | true =>
    rw [uses] at ran
    cases ran
    refine ⟨List.Subset.refl hooks, ⟨⟨backed.installed.drawn, backed.installed.selected, backed.installed.installs⟩, ?_⟩, trivial⟩
    exact supported _ rfl fun _ _ => rfl
  | false =>
    rw [uses] at ran
    cases ran
    refine ⟨List.Subset.refl hooks, ⟨backed.installed, supported page rfl fun call member => ?_⟩, trivial⟩
    exact (backed.supported.needs call member).resolve_right (by rw [uses]; exact Bool.false_ne_true)

theorem backs_trace {html : Text} (unmarked : markerOpen ∉ html) (scope : Scope) :
    Backs base (trace html scope) fun hooks lowered => Marked (Signaled hooks) lowered := by
  have sound : ∀ part ∈ parts (Pattern.erase block html), part.IsSound :=
    isSound_of_mem_partsFrom fun member => unmarked (subset_erase block html member)
  refine (carries_traceBlocks scope _).bind fun _ found _ _ => ?_
  refine (carries_traceParts scope sound).declared.bind fun _ lowered _ ⟨free, declared⟩ => ?_
  refine (carries_needSignals lowered.2).bind fun _ _ subset _ => ?_
  refine Carries.bind (?_ : Backs _ _ fun _ _ => True) fun hooks _ grows _ => ?_
  · split
    · exact carries_embed (Compile.spares_note _)
    · exact carries_embed (Compile.spares_pure trivial)
  · refine carries_pure rfl fun all more => ?_
    exact marked_mark free fun name member => (declared name member).mono (List.Subset.trans subset (List.Subset.trans grows more))

theorem backs_traceResolve {html : Text} (marked : Marked (Signaled base) html) :
    Backs base (traceResolve html) fun _ resolved => markerOpen ∉ resolved := by
  intro hooks page resolved after final subset backed ran
  obtain ⟨signaled, unmarked⟩ := resolve_of_marked (marked.known subset)
  cases ran
  exact ⟨List.subset_append_left hooks _, backed.elements signaled, unmarked⟩

end Signal

/-- A workshop whose templates and fetch script hold no marker. -/
structure Workshop.IsUnmarked (workshop : Workshop) : Prop where
  templates : ∀ component ∈ workshop.registry.components, markerOpen ∉ component.template
  fetch : ∀ text, workshop.texts.fetch = some text → markerOpen ∉ text

theorem Workshop.IsUnmarked.template_of_require {workshop : Workshop} (unmarked : workshop.IsUnmarked) {name : Text}
    {component : Component} (requires : workshop.registry.require name = .ok component) : markerOpen ∉ component.template := by
  unfold Registry.require at requires
  split at requires
  · next found =>
    cases requires
    exact unmarked.templates component (List.mem_of_find?_eq_some found)
  · cases requires

namespace Expansion

variable {base : List Hook} {limit : Int} {workshop : Workshop}

theorem spares_mask {known : Text → Prop} {html : Text} (marked : Marked known html) :
    (mask html).Spares fun masked => Marked known masked :=
  (Compile.spares_note _).bind fun _ _ => (Compile.spares_lift _).mono fun _ masks => marked.mask masks

theorem spares_arguments {known : Text → Prop} {component : Component} {scope : Scope} {head : Text}
    (marked : Marked known head) (held : MarkedScope known scope) :
    (arguments workshop component scope head).Spares fun values => MarkedScope known values :=
  (Compile.spares_note _).bind fun _ _ => (Compile.spares_lift _).mono fun _ resolves =>
    Signal.markedScope_resolve marked held resolves

theorem backs_traceInstantiate (unmarked : workshop.IsUnmarked) {component : Component}
    (template : markerOpen ∉ component.template) {scope : Scope} (held : MarkedScope (Signaled base) scope)
    {fills : Bindings Text} (filled : ∀ fill ∈ fills, Marked (Signaled base) fill.2) :
    Backs base (traceInstantiate workshop component scope fills) fun _ result => markerOpen ∉ result := by
  refine (Signal.backs_trace template scope).bind fun _ lowered subset marked => ?_
  have injected := Signal.marked_inject marked fun fill member => (filled fill member).known subset
  refine carries_embed_bind (spares_mask injected) fun masked masks => ?_
  refine carries_embed_bind (Compile.spares_lift _) fun settled settles => ?_
  refine carries_embed_bind (Compile.spares_lift _) fun substituted substitutes => ?_
  have ready := (masks.settle settles).substitute (held.known subset) substitutes
  refine (Signal.backs_traceResolve ready).bind fun _ resolved _ free => ?_
  exact carries_embed (Fetch.spares_lower unmarked.fetch free)

theorem backs_traceFrom (unmarked : workshop.IsUnmarked) (call : Call limit) (marked : Marked (Signaled base) call.html)
    (held : MarkedScope (Signaled base) call.scope) :
    Backs base (traceFrom workshop call.stack call.scope call.html call.position) fun hooks result =>
      Marked (Signaled hooks) result := by
  induction call using wellFounded_below.induction generalizing base with
  | _ call ih =>
    have backs {kind : CallKind} {callee : Call limit} (calls : Calls kind callee call) {base : List Hook}
        (marked : Marked (Signaled base) callee.html) (held : MarkedScope (Signaled base) callee.scope) :=
      ih callee (below_of_descends calls.descends) marked held
    cases found : ComponentTag.next? call.html call.position with
    | error failure =>
      rw [traceFrom_of_error _ _ _ found]
      have thrown : (do
          Compile.note (danglingNotes call.html call.position)
          throw failure : Compile Text).Spares fun _ => False :=
        (Compile.spares_note _).bind fun _ _ => Compile.spares_throw _ _
      exact (carries_embed thrown).mono fun _ _ _ impossible => impossible.elim
    | ok tag? =>
      cases tag? with
      | none =>
        rw [traceFrom_of_none _ _ _ found]
        have rest := (Compile.spares_note (danglingNotes call.html call.position)).bind fun _ _ =>
          Compile.spares_lift (Placeholder.substitute (call.html.drop call.position) call.scope)
        exact (carries_embed rest).mono fun _ _ subset substitutes =>
          ((marked.drop call.position).substitute held substitutes).known subset
      | some tag =>
        rw [traceFrom_of_tag _ _ _ found]
        obtain ⟨front, head, inner⟩ := marked.of_next? found
        refine carries_embed_bind (Compile.spares_note _) fun _ _ => ?_
        refine carries_embed_bind (Compile.spares_lift _) fun before substitutes => ?_
        have beforeMarked := front.substitute held substitutes
        refine carries_embed_bind (Compile.spares_lift _) fun component requires => ?_
        refine carries_embed_bind (spares_arguments head held) fun arguments argumentsHeld => ?_
        refine carries_embed_bind (Compile.spares_note _) fun _ _ => ?_
        cases settled : Conditional.settle tag.inner call.scope with
        | error failure => exact carries_throw failure
        | ok children =>
          rw [embed_lift_ok_bind]
          refine (backs (.children found settled) (inner.settle settled) held).bind fun first expanded toFirst filled => ?_
          refine carries_embed_bind (Compile.spares_note _) fun _ _ => ?_
          cases enters : call.stack.enter component.name with
          | error failure => exact carries_throw failure
          | ok entered =>
            rw [embed_lift_ok_bind]
            refine (backs_traceInstantiate unmarked (unmarked.template_of_require requires) (argumentsHeld.known toFirst)
              (Signal.marked_fills filled)).bind fun second instance_ toSecond free => ?_
            have toHere := List.Subset.trans toFirst toSecond
            refine carries_embed_bind (Compile.spares_lift _) fun template settles => ?_
            have enteredCall : Calls .template ⟨entered, arguments, template, 0⟩ call := .template enters
            refine (backs enteredCall ((Signal.marked_of_not_mem free).settle settles) (argumentsHeld.known toHere)).bind
              fun third body toThird bodyMarked => ?_
            have toBody := List.Subset.trans toHere toThird
            refine (backs (.rest found) (marked.known toBody) (held.known toBody)).bind fun last rest toLast restMarked => ?_
            refine carries_pure rfl fun all toAll => ?_
            have whole := ((beforeMarked.known toBody).append bodyMarked).known toLast
            exact (whole.append restMarked).known toAll

theorem backs_trace (unmarked : workshop.IsUnmarked) (stack : ExpansionStack limit) {scope : Scope} {html : Text}
    (marked : Marked (Signaled base) html) (held : MarkedScope (Signaled base) scope) :
    Backs base (trace workshop stack scope html) fun hooks result => Marked (Signaled hooks) result := by
  refine carries_embed_bind (Compile.spares_lift _) fun settled settles => ?_
  exact backs_traceFrom unmarked ⟨stack, scope, settled, 0⟩ (marked.settle settles) held

end Expansion

/-- Compiling a page backs its hooks. -/
theorem backs_tracePage {limit : Int} {workshop : Workshop} (unmarked : workshop.IsUnmarked) (stack : ExpansionStack limit)
    {scope : Scope} (held : MarkedScope (Signaled []) scope) (topLevel : Bool) {html : Text} (free : markerOpen ∉ html) :
    Backs [] (tracePage workshop stack scope topLevel html) fun _ _ => True := by
  unfold tracePage
  split
  · refine (Signal.backs_trace free scope).bind fun _ lowered _ marked => ?_
    refine carries_embed_bind (Expansion.spares_mask marked) fun masked masks => ?_
    refine (Expansion.backs_trace unmarked stack masks (held.known (List.nil_subset _))).bind fun _ expanded _ marked => ?_
    refine (Signal.backs_traceResolve marked).bind fun _ resolved _ free => ?_
    refine carries_embed_bind (Fetch.spares_lower unmarked.fetch free) fun _ _ => ?_
    exact carries_pure rfl fun _ _ => trivial
  · exact (Expansion.backs_trace unmarked stack (Signal.marked_of_not_mem free) held).mono fun _ _ _ _ => trivial

/-! ### Pages -/

/-- Whether a script is that of a handler and selects by an id. -/
def Signal.selects (id script : Text) : Bool := (selected? script).map Prod.snd = some id

/-- The runtime as the script block of a page holds it. -/
def ScriptTexts.library (texts : ScriptTexts) : Text :=
  withoutFinalBreak (texts.runtime.getD (lines (runtimeLines.map String.toList)))

/-- A script behind each hook of a page. Each attribute has exactly one that selects by its id, which no other attribute
has; the signal that an element shows gets its first value in one; each call stands in one; and where there is an element
or a call, the page needs the runtime, and its script block holds the runtime and then the scripts. -/
structure HooksBacked (texts : ScriptTexts) (page : Page) (hooks : List Hook) : Prop where
  attributes : ∀ event id, .attribute event id ∈ hooks →
    ∃ handler, page.scripts.filter (Signal.selects id) = [Signal.handlerScript event id handler]
  distinct : ((hooks.filterMap Hook.attribute?).map Prod.snd).Nodup
  elements : ∀ name, .element name ∈ hooks →
    ∃ script ∈ page.scripts, ∃ value, Script.call "signal" name (some value) <:+: script
  calls : ∀ call, .call call ∈ hooks → ∃ script ∈ page.scripts, call <:+: script
  signals : (∃ name, .element name ∈ hooks) ∨ (∃ call, .call call ∈ hooks) → page.usesSignals = true
  runtime : (∃ name, .element name ∈ hooks) ∨ (∃ call, .call call ∈ hooks) → texts.page = none →
    texts.pageScript page.scripts page.usesSignals =
      "<script>\n" ++ (texts.library ++ "\n") ++ page.scripts.flatMap (· ++ ['\n']) ++ "gtml.bind(document);\n" ++ "</script>"

theorem Text.trim_of_solid {c d : Char} {inside : Text} (first : isBlank c = false) (last : isBlank d = false) :
    trim (c :: inside ++ [d]) = c :: inside ++ [d] := by
  rw [trim, List.cons_append, trimLeft_cons_of_not_blank first, ← List.cons_append, trimRight_concat_of_not_blank last]

/-- White space is not taken off a script element. -/
theorem ScriptTexts.trim_element (inside : Text) :
    Text.trim ("<script>\n" ++ inside ++ "</script>") = "<script>\n" ++ inside ++ "</script>" := by
  have front : ("<script>\n" : Text) = '<' :: "script>\n" := by decide
  have back : ("</script>" : Text) = "</script" ++ ['>'] := by decide
  rw [front, back, ← List.append_assoc]
  exact Text.trim_of_solid (by decide) (by decide)

/-- A page that needs the runtime has a script block that begins with it. -/
theorem ScriptTexts.pageScript_of_usesSignals {texts : ScriptTexts} (bundled : texts.page = none) (scripts : List Text) :
    texts.pageScript scripts true =
      "<script>\n" ++ (texts.library ++ "\n") ++ scripts.flatMap (· ++ ['\n']) ++ "gtml.bind(document);\n" ++ "</script>" := by
  have regroup (opening library body binding closing : Text) :
      opening ++ library ++ body ++ binding ++ closing = opening ++ (library ++ (body ++ binding)) ++ closing := by
    simp only [List.append_assoc]
  calc
    texts.pageScript scripts true = Text.trim (bundledPage texts.library scripts true) := by
      unfold pageScript
      rw [bundled, if_neg (by simp)]
      rfl
    _ = Text.trim ("<script>\n" ++ (texts.library ++ "\n" ++ (scripts.flatMap (· ++ ['\n']) ++ "gtml.bind(document);\n")) ++
        "</script>") := congrArg Text.trim (regroup _ _ _ _ _)
    _ = _ := trim_element _
    _ = _ := (regroup _ _ _ _ _).symm

theorem filter_of_nodup {f : Text → Option (Text × Text)} {list : List Text}
    (distinct : ((list.filterMap f).map Prod.snd).Nodup) {a event id : Text} (member : a ∈ list)
    (found : f a = some (event, id)) : list.filter (fun b => (f b).map Prod.snd = some id) = [a] := by
  have keeps : (f a).map Prod.snd = some id := by rw [found, Option.map_some]
  induction list with
  | nil => cases member
  | cons b list ih =>
    cases here : f b with
    | none =>
      rw [List.filterMap_cons_none here] at distinct
      have drops : (f b).map Prod.snd ≠ some id := by rw [here]; exact (Option.some_ne_none id).symm
      have later : a ∈ list := (List.mem_cons.1 member).resolve_left fun same => drops (same ▸ keeps)
      rw [List.filter_cons, if_neg (by simpa using drops)]
      exact ih distinct later
    | some pair =>
      rw [List.filterMap_cons_some here, List.map_cons, List.nodup_cons] at distinct
      have other {c : Text} (inList : c ∈ list) : (f c).map Prod.snd ≠ some pair.2 := by
        intro same
        obtain ⟨result, reads, equal⟩ := Option.map_eq_some_iff.1 same
        exact distinct.1 (equal ▸ List.mem_map_of_mem (List.mem_filterMap.2 ⟨c, inList, reads⟩))
      rcases List.mem_cons.1 member with rfl | later
      · rw [here, Option.map_some] at keeps
        rw [List.filter_cons, if_pos (by simpa [here] using keeps), List.filter_eq_nil_iff.2]
        intro c inList
        rw [← keeps]
        simpa using other inList
      · have drops : (f b).map Prod.snd ≠ some id := by
          intro same
          rw [here, Option.map_some] at same
          exact other later (same ▸ keeps)
        rw [List.filter_cons, if_neg (by simpa using drops)]
        exact ih distinct.2 later

theorem Signal.Backed.hooksBacked {page : Page} {hooks : List Hook} (backed : Backed {} page hooks) (texts : ScriptTexts) :
    HooksBacked texts page hooks := by
  have distinct : ((hooks.filterMap Hook.attribute?).map Prod.snd).Nodup := by
    rw [backed.installed.drawn]
    exact List.Nodup.map handlerId_injective List.nodup_range'
  have needs : (∃ name, .element name ∈ hooks) ∨ (∃ call, .call call ∈ hooks) → page.usesSignals = true := by
    have called {call : Text} (member : .call call ∈ hooks) : page.usesSignals = true :=
      (backed.supported.needs call member).resolve_right Bool.false_ne_true
    rintro (⟨name, shown⟩ | ⟨call, member⟩)
    · obtain ⟨value, member⟩ := backed.supported.elements name shown
      exact called member
    · exact called member
  refine ⟨fun event id member => ?_, distinct, fun name shown => ?_, backed.supported.calls, needs, fun hooked bundled => ?_⟩
  · have listed : (event, id) ∈ hooks.filterMap Hook.attribute? := List.mem_filterMap.2 ⟨_, member, rfl⟩
    rw [← backed.installed.selected] at listed distinct
    obtain ⟨script, queued, selects⟩ := List.mem_filterMap.1 listed
    obtain ⟨handler, rfl⟩ := backed.installed.installs script queued event id selects
    exact ⟨handler, filter_of_nodup distinct queued selects⟩
  · obtain ⟨value, member⟩ := backed.supported.elements name shown
    obtain ⟨script, queued, stands⟩ := backed.supported.calls _ member
    exact ⟨script, queued, value, stands⟩
  · rw [needs hooked]
    exact ScriptTexts.pageScript_of_usesSignals bundled page.scripts

/-- Every hook that a compilation writes is backed by a script. The hooks are those that the compilation lists when it is
run with the list beside it, which gives the same markup and the same page. -/
theorem compilePage_hooksBacked {limit : Int} {workshop : Workshop} (unmarked : workshop.IsUnmarked)
    (stack : ExpansionStack limit) {scope : Scope} (held : ∀ binding ∈ scope, markerOpen ∉ binding.2.render)
    (topLevel : Bool) {html : Text} (free : markerOpen ∉ html) {markup : Text} {page : Page}
    (compiled : (compilePage workshop stack scope topLevel html).run {} = (.ok markup, page)) :
    ∃ hooks, ((tracePage workshop stack scope topLevel html).run []).run {} = (.ok (markup, hooks), page) ∧
      HooksBacked workshop.texts page hooks := by
  have erased := tracePage_erases workshop stack scope topLevel html []
  rw [← erased, Compile.run_map] at compiled
  rcases ran : ((tracePage workshop stack scope topLevel html).run []).run {} with ⟨outcome, final⟩
  rw [ran] at compiled
  cases outcome with
  | error failure => cases compiled
  | ok result =>
    obtain ⟨text, hooks⟩ := result
    cases compiled
    refine ⟨hooks, rfl, ?_⟩
    have marked : MarkedScope (Signaled []) scope := fun binding member => Signal.marked_of_not_mem (held binding member)
    have empty : Backed {} {} [] := by
      refine ⟨⟨rfl, rfl, List.forall_mem_nil _⟩, ⟨?_, ?_, ?_, List.forall_mem_nil _⟩⟩ <;> intro _ impossible <;> cases impossible
    obtain ⟨-, backed, -⟩ := backs_tracePage unmarked stack marked topLevel free [] {} _ _ _ (List.Subset.refl _) empty ran
    exact backed.hooksBacked workshop.texts

/-- A page with a signal, a handler that changes it and an element that shows it. -/
def clicker : Text := "<script type='gtml'>$n = 0;</script><p onclick=\x7b $n++ \x7d>\x7bn\x7d</p>"

theorem compilePage_hooksBacked_clicker :
    ∃ page hooks, (compilePage {} (ExpansionStack.empty 8) [] true clicker).run {} =
        (.ok "<p data-gtml-onclick='gtml-on-1'><span data-signal-value='n'></span></p>", page) ∧
      ((tracePage {} (ExpansionStack.empty 8) [] true clicker).run []).run {} =
        (.ok ("<p data-gtml-onclick='gtml-on-1'><span data-signal-value='n'></span></p>", hooks), page) ∧
      HooksBacked {} page hooks := by
  let marked : Text := "<p data-gtml-onclick='gtml-on-1'>\ue002n\ue003</p>"
  let shown : Text := "<p data-gtml-onclick='gtml-on-1'><span data-signal-value='n'></span></p>"
  have lowered : ((Signal.lower clicker []).run {}).1 = .ok marked := eq_ok_of_toOption (by decide +kernel)
  have unfetched : Fetch.next? marked 0 = none := Option.isNone_iff_eq_none.1 (by decide +kernel)
  have unsought : Conditional.seek? marked = none := Option.isNone_iff_eq_none.1 (by decide +kernel)
  have unfetchedLater : Fetch.next? shown 0 = none := Option.isNone_iff_eq_none.1 (by decide +kernel)
  have resolved : Signal.resolve marked = shown := by decide +kernel
  have rest : (do
      let masked ← Expansion.mask marked
      let expanded ← Expansion.expand {} (ExpansionStack.empty 8) [] masked
      let fetched ← Fetch.lower {} (Signal.resolve expanded)
      pure (Fetch.unmask fetched) : Compile Text).Gives (some shown) := by
    refine Compile.Gives.bind_some (Expansion.gives_mask unfetched) ?_
    rw [Expansion.expand, Conditional.settle_of_none unsought, Compile.lift_ok, pure_bind]
    refine Compile.Gives.bind_some (@gives_expandFrom_of_untagged _ _ _ _ marked marked (by decide +kernel) (by decide +kernel)) ?_
    rw [resolved, Fetch.lower_of_none unfetchedLater]
    refine Compile.Gives.note ?_ _
    rw [Fetch.unmask_of_unreserved (by decide +kernel)]
    exact Compile.gives_pure shown
  let page := ((compilePage {} (ExpansionStack.empty 8) [] true clicker).run {}).2
  have compiled : (compilePage {} (ExpansionStack.empty 8) [] true clicker).run {} = (.ok shown, page) := by
    refine Prod.ext ?_ rfl
    rw [compilePage, if_pos rfl, Compile.run_bind_of_ok (Prod.ext lowered rfl)]
    exact eq_ok_of_toOption (rest _)
  obtain ⟨hooks, traced, backed⟩ := compilePage_hooksBacked ⟨List.forall_mem_nil _, fun _ absent => by cases absent⟩
    (ExpansionStack.empty 8) (List.forall_mem_nil _) true (by decide +kernel) compiled
  exact ⟨page, hooks, compiled, traced, backed⟩

example : (((Signal.trace clicker []).run []).run {}).1.toOption.map Prod.snd = some [
    .call "gtml.signal('n', 0)", .call "gtml.get('n')", .call "gtml.set('n', gtml.get('n') + 1)",
    .attribute "onclick" "gtml-on-1"] := by
  decide +kernel

end ComponentPages
