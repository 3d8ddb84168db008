import ComponentPages.Proofs.Counters
import ComponentPages.Proofs.Termination

/-!
What a compilation does to a page. Notes are made, ids drawn, scripts queued, and the need of the signal runtime is
recorded; compilations are sequences of such operations, so a relation of pages that each of them respects holds between
the page before a compilation and the page after it, however the compilation ends. One such relation is growth: the
scripts that were queued stay at the front, none is queued twice, no counter of ids goes down, and a page that needs the
signal runtime goes on needing it.
-/
namespace ComponentPages

variable {α β : Type}

namespace Page

/-- How a page relates to what it becomes. -/
structure Grows (before after : Page) : Prop where
  scripts : before.scripts <+: after.scripts
  distinct : before.scripts.Nodup → after.scripts.Nodup
  ids : ∀ stem, before.ids.count stem ≤ after.ids.count stem
  signals : before.usesSignals = true → after.usesSignals = true

theorem Grows.refl (page : Page) : page.Grows page where
  scripts := List.prefix_rfl
  distinct := id
  ids _ := Nat.le_refl _
  signals := id

theorem Grows.trans {first second third : Page} (grows : first.Grows second) (more : second.Grows third) :
    first.Grows third where
  scripts := grows.scripts.trans more.scripts
  distinct := more.distinct ∘ grows.distinct
  ids stem := Nat.le_trans (grows.ids stem) (more.ids stem)
  signals := more.signals ∘ grows.signals

theorem grows_addScript (page : Page) (script : Text) : page.Grows (page.addScript script) := by
  unfold addScript
  split
  · exact .refl page
  · next new =>
    refine ⟨List.prefix_append _ _, fun distinct => ?_, fun _ => Nat.le_refl _, id⟩
    refine List.nodup_append.2 ⟨distinct, by simp, ?_⟩
    rintro queued member other single rfl
    rw [List.mem_singleton.1 single] at member
    exact new (List.contains_iff_mem.2 member)

end Page

/-- A relation of pages that every operation respects, where only scripts of a kind are queued. -/
structure Page.Respects (accepts : Text → Prop) (relates : Page → Page → Prop) : Prop where
  refl : ∀ page, relates page page
  trans : ∀ {first second third}, relates first second → relates second third → relates first third
  note : ∀ page notes, relates page { page with notes := page.notes ++ notes }
  nextId : ∀ page stem, relates page { page with ids := (page.ids.next stem).2 }
  needSignals : ∀ page, relates page { page with usesSignals := true }
  addScript : ∀ page script, accepts script → relates page (page.addScript script)

namespace Compile

/-- However the compilation ends, the page after it is related to the page before it. -/
def Moves (relates : Page → Page → Prop) (compilation : Compile α) : Prop :=
  ∀ page : Page, relates page (compilation.run page).2

/-- However the compilation ends, the page has only grown. -/
def Keeps (compilation : Compile α) : Prop := ∀ page : Page, page.Grows (compilation.run page).2

namespace Moves

variable {accepts : Text → Prop} {relates : Page → Page → Prop} (respects : Page.Respects accepts relates)
include respects

theorem pure (value : α) : Moves relates (Pure.pure value : Compile α) := respects.refl

theorem throw (failure : Failure) : Moves relates (throw failure : Compile α) := respects.refl

theorem lift (result : Except Failure α) : Moves relates (Compile.lift result) := by
  intro page
  rw [run_lift]
  exact respects.refl page

theorem bind {first : Compile α} (moves : first.Moves relates) {second : α → Compile β}
    (next : ∀ value, (second value).Moves relates) : Moves relates (first >>= second) := by
  intro page
  have moved := moves page
  rw [run_bind]
  cases ran : first.run page with
  | mk outcome later =>
    rw [ran] at moved
    cases outcome with
    | error failure => exact moved
    | ok value => exact respects.trans moved (next value later)

theorem note (notes : List Note) : Moves relates (Compile.note notes) := fun page => respects.note page notes

theorem addScript {script : Text} (accepted : accepts script) : Moves relates (Compile.addScript script) :=
  fun page => respects.addScript page script accepted

theorem needSignals : Moves relates Compile.needSignals := respects.needSignals

theorem nextId {stem : Text} {second : Text → Compile β}
    (next : ∀ number, (second (stem ++ "-" ++ Text.ofNat number)).Moves relates) :
    Moves relates (Compile.nextId stem >>= second) :=
  fun page => respects.trans (respects.nextId page stem) (next (page.ids.count stem + 1) _)

omit respects in
theorem ite {condition : Prop} [Decidable condition] {first second : Compile α} (moves : first.Moves relates)
    (other : second.Moves relates) : Moves relates (if condition then first else second) := by
  split
  · exact moves
  · exact other

theorem mapM {f : α → Compile β} (moves : ∀ a, (f a).Moves relates) (list : List α) : Moves relates (list.mapM f) := by
  induction list with
  | nil => exact pure respects []
  | cons a list ih =>
    rw [List.mapM_cons]
    exact (moves a).bind respects fun _ => ih.bind respects fun _ => pure respects _

theorem foldlM {f : β → α → Compile β} {list : List α} (moves : ∀ a ∈ list, ∀ b, (f b a).Moves relates) (start : β) :
    Moves relates (list.foldlM f start) := by
  induction list generalizing start with
  | nil => exact pure respects start
  | cons a list ih =>
    rw [List.foldlM_cons]
    exact (moves a List.mem_cons_self start).bind respects (ih fun other member => moves other (List.mem_cons_of_mem a member))

end Moves

end Compile

open Compile (Moves)

variable {accepts : Text → Prop} {relates : Page → Page → Prop}

namespace Signal

/-- The scripts that a template queues, in a scope, are of a kind. -/
structure QueuesOnly (accepts : Text → Prop) (html : Text) (scope : Scope) : Prop where
  blocks : ∀ source ∈ Pattern.values block html, ∀ found script,
    ((Script.lower scope false source).run.run found).1 = .ok script → accepts (wrap (Text.trim script))
  handlers : ∀ event body, .handler event body ∈ parts (Pattern.erase block html) → ∀ number found handler,
    ((Script.lowerHandler scope body).run.run found).1 = .ok handler →
      accepts (handlerScript (Text.lower event) ("gtml-on" ++ "-" ++ Text.ofNat number) handler)

theorem queues_any (html : Text) (scope : Scope) : QueuesOnly (fun _ => True) html scope :=
  ⟨fun _ _ _ _ _ => trivial, fun _ _ _ _ _ _ _ => trivial⟩

variable (respects : Page.Respects accepts relates)
include respects

theorem moves_runLowering {found : Declarations} {lowering : Lowering Text} {second : Text × Declarations → Compile β}
    (next : ∀ script later, (lowering.run.run found).1 = .ok script → (second (script, later)).Moves relates) :
    Moves relates (runLowering found lowering >>= second) := by
  unfold runLowering
  cases ran : lowering.run.run found with
  | mk outcome later =>
    cases outcome with
    | error failure => exact Moves.throw respects failure
    | ok script => exact next script later (by rw [ran])

theorem moves_queueBlocks {html : Text} {scope : Scope} (queues : QueuesOnly accepts html scope) :
    Moves relates (queueBlocks scope (Pattern.values block html)) := by
  refine Moves.foldlM respects (fun source member found => ?_) _
  refine .ite (Moves.pure respects found) ?_
  refine moves_runLowering respects fun script later ran => ?_
  exact (Moves.addScript respects (queues.blocks source member found script ran)).bind respects fun _ => Moves.pure respects _

theorem moves_lowerPart {scope : Scope} (found : Declarations) {part : Part}
    (handles : ∀ event body, part = .handler event body → ∀ number found handler,
      ((Script.lowerHandler scope body).run.run found).1 = .ok handler →
        accepts (handlerScript (Text.lower event) ("gtml-on" ++ "-" ++ Text.ofNat number) handler)) :
    Moves relates (lowerPart scope found part) := by
  cases part with
  | plain c => exact Moves.pure respects _
  | handler event body =>
    refine Moves.nextId respects fun number => moves_runLowering respects fun handler later ran => ?_
    exact (Moves.addScript respects (handles event body rfl number found handler ran)).bind respects fun _ =>
      Moves.pure respects _
  | unclosed event snippet => exact Moves.throw respects _

theorem moves_lowerParts {scope : Scope} (found : Declarations) {parts : List Part}
    (handles : ∀ event body, .handler event body ∈ parts → ∀ number found handler,
      ((Script.lowerHandler scope body).run.run found).1 = .ok handler →
        accepts (handlerScript (Text.lower event) ("gtml-on" ++ "-" ++ Text.ofNat number) handler)) :
    Moves relates (lowerParts scope found parts) := by
  induction parts generalizing found with
  | nil => exact Moves.pure respects _
  | cons part parts ih =>
    have here := moves_lowerPart respects found fun event body same =>
      handles event body (List.mem_cons.2 (.inl same.symm))
    exact here.bind respects fun _ =>
      (ih _ fun event body member => handles event body (List.mem_cons_of_mem part member)).bind respects fun _ =>
        Moves.pure respects _

theorem moves_lower {html : Text} {scope : Scope} (queues : QueuesOnly accepts html scope) :
    Moves relates (lower html scope) := by
  refine (moves_queueBlocks respects queues).bind respects fun _ => ?_
  refine (moves_lowerParts respects _ queues.handlers).bind respects fun (lowered, found) => ?_
  have marked : Moves relates (pure (mark lowered found.declared)) := Moves.pure respects _
  have noted : Moves relates (if found.declared ≠ [] then do
      Compile.note [.declaredSignals found.declared]
      pure (mark lowered found.declared)
    else pure (mark lowered found.declared)) := .ite ((Moves.note respects _).bind respects fun _ => marked) marked
  exact .ite ((Moves.needSignals respects).bind respects fun _ => noted) noted

end Signal

namespace Fetch

variable (respects : Page.Respects accepts relates)
include respects

theorem moves_directive (attr : Attribute) : Moves relates (directive attr) := by
  unfold directive
  split
  · exact Moves.pure respects _
  · split
    · exact Moves.pure respects _
    · split
      · exact (Moves.lift respects _).bind respects fun _ => Moves.nextId respects fun _ => Moves.pure respects _
      · exact Moves.pure respects _

theorem moves_directiveAttributes (attributes : List Attribute) : Moves relates (directiveAttributes attributes) :=
  (Moves.mapM respects (moves_directive respects) attributes).bind respects fun _ => Moves.pure respects _

theorem moves_directivesFrom (body : Text) (position : Nat) (marks : List Mark) :
    Moves relates (directivesFrom body position marks) := by
  induction marks generalizing position with
  | nil => exact Moves.pure respects _
  | cons mark marks ih =>
    unfold directivesFrom
    split
    · exact ih position
    · split
      · exact Moves.pure respects _
      · refine (Moves.note respects _).bind respects fun _ => ?_
        dsimp only
        split
        · exact (moves_directiveAttributes respects _).bind respects fun _ => (ih _).bind respects fun _ =>
            Moves.pure respects _
        · exact ih position

theorem moves_identify (attributes : List Attribute) : Moves relates (identify attributes) := by
  unfold identify
  dsimp only
  split
  · exact Moves.nextId respects fun _ => Moves.pure respects _
  · exact Moves.nextId respects fun _ => Moves.pure respects _
  · exact Moves.pure respects _

theorem moves_writeElement (texts : ScriptTexts) (name head body closeTag : Text) :
    Moves relates (writeElement texts name head body closeTag) := by
  refine (Moves.lift respects _).bind respects fun request => .ite (Moves.throw respects _) ?_
  refine (moves_identify respects _).bind respects fun _ => (moves_directivesFrom respects body 0 _).bind respects fun _ => ?_
  exact (Moves.note respects _).bind respects fun _ => Moves.pure respects _

theorem moves_lowerFrom (texts : ScriptTexts) (html : Text) (position : Nat) :
    Moves relates (lowerFrom texts html position) := by
  fun_induction lowerFrom texts html position with
  | case1 html position unfound => exact (Moves.note respects _).bind respects fun _ => Moves.pure respects _
  | case2 html position site found bounds closes ih =>
    exact (Moves.note respects _).bind respects fun _ => (moves_writeElement respects _ _ _ _ _).bind respects fun _ =>
      ih.bind respects fun _ => Moves.pure respects _
  | case3 html position site found bounds open_ unclosed =>
    exact (Moves.note respects _).bind respects fun _ => Moves.throw respects _
  | case4 html position site found bounds open_ close closed inside size body rest =>
    refine (Moves.note respects _).bind respects fun _ => body.bind respects fun _ => ?_
    exact (moves_writeElement respects _ _ _ _ _).bind respects fun _ => rest.bind respects fun _ => Moves.pure respects _

theorem moves_lower (texts : ScriptTexts) (html : Text) : Moves relates (lower texts html) :=
  moves_lowerFrom respects texts html 0

end Fetch

/-- The scripts that the components of a registry queue, in whatever scope, are of a kind. -/
def Registry.QueuesOnly (registry : Registry) (accepts : Text → Prop) : Prop :=
  ∀ name component, registry.require name = .ok component → ∀ scope, Signal.QueuesOnly accepts component.template scope

namespace Expansion

variable (respects : Page.Respects accepts relates)
include respects

theorem moves_arguments (workshop : Workshop) (component : Component) (scope : Scope) (head : Text) :
    Moves relates (arguments workshop component scope head) :=
  (Moves.note respects _).bind respects fun _ => Moves.lift respects _

theorem moves_mask (html : Text) : Moves relates (mask html) :=
  (Moves.note respects _).bind respects fun _ => Moves.lift respects _

theorem moves_instantiate (workshop : Workshop) {component : Component} {scope : Scope}
    (queues : Signal.QueuesOnly accepts component.template scope) (fills : Bindings Text) :
    Moves relates (instantiate workshop component scope fills) := by
  refine (Signal.moves_lower respects queues).bind respects fun _ => (moves_mask respects _).bind respects fun _ => ?_
  exact (Moves.lift respects _).bind respects fun _ => (Moves.lift respects _).bind respects fun _ =>
    Fetch.moves_lower respects _ _

theorem moves_expandFrom {limit : Int} {workshop : Workshop} (queues : workshop.registry.QueuesOnly accepts)
    (call : Call limit) : Moves relates (expandFrom workshop call.stack call.scope call.html call.position) := by
  induction call using wellFounded_below.induction with
  | _ call ih =>
    have moves {kind : CallKind} {callee : Call limit} (calls : Calls kind callee call) :=
      ih callee (below_of_descends calls.descends)
    cases found : ComponentTag.next? call.html call.position with
    | error failure =>
      rw [expandFrom_of_error found]
      exact (Moves.note respects _).bind respects fun _ => Moves.throw respects _
    | ok tag? =>
      cases tag? with
      | none =>
        rw [expandFrom_of_none found]
        exact (Moves.note respects _).bind respects fun _ => Moves.lift respects _
      | some tag =>
        rw [expandFrom_of_tag found]
        refine (Moves.note respects _).bind respects fun _ => (Moves.lift respects _).bind respects fun before => ?_
        cases required : workshop.registry.require tag.name with
        | error failure => exact Moves.throw respects failure
        | ok component =>
          rw [Compile.lift_ok, pure_bind]
          refine (moves_arguments respects _ _ _ _).bind respects fun arguments =>
            (Moves.note respects _).bind respects fun _ => ?_
          cases settled : Conditional.settle tag.inner call.scope with
          | error failure => exact Moves.throw respects failure
          | ok inner =>
            rw [Compile.lift_ok, pure_bind]
            refine (moves (.children found settled)).bind respects fun children =>
              (Moves.note respects _).bind respects fun _ => ?_
            cases enters : call.stack.enter component.name with
            | error failure => exact Moves.throw respects failure
            | ok entered =>
              rw [Compile.lift_ok, pure_bind]
              refine (moves_instantiate respects workshop (queues _ _ required arguments) _).bind respects fun _ => ?_
              refine (Moves.lift respects _).bind respects fun template => ?_
              have enteredCall : Calls .template ⟨entered, arguments, template, 0⟩ call := .template enters
              refine (moves enteredCall).bind respects fun _ => ?_
              exact (moves (.rest found)).bind respects fun _ => Moves.pure respects _

theorem moves_expand {limit : Int} {workshop : Workshop} (queues : workshop.registry.QueuesOnly accepts)
    (stack : ExpansionStack limit) (scope : Scope) (html : Text) : Moves relates (expand workshop stack scope html) :=
  (Moves.lift respects _).bind respects fun settled => moves_expandFrom respects queues ⟨stack, scope, settled, 0⟩

end Expansion

/-- Whatever every operation respects, a compilation does, if the scripts of the page and of all components are of the
kind that may be queued. -/
theorem moves_compilePage (respects : Page.Respects accepts relates) {limit : Int} {workshop : Workshop}
    (components : workshop.registry.QueuesOnly accepts) (stack : ExpansionStack limit) {scope : Scope} {topLevel : Bool}
    {html : Text} (page : topLevel = true → Signal.QueuesOnly accepts html scope) :
    Moves relates (compilePage workshop stack scope topLevel html) := by
  unfold compilePage
  split
  · next top =>
    refine (Signal.moves_lower respects (page top)).bind respects fun _ => ?_
    refine (Expansion.moves_mask respects _).bind respects fun masked => ?_
    refine (Expansion.moves_expand respects components _ _ masked).bind respects fun _ => ?_
    exact (Fetch.moves_lower respects _ _).bind respects fun _ => Moves.pure respects _
  · exact Expansion.moves_expand respects components stack scope html

theorem respects_grows : Page.Respects (fun _ => True) Page.Grows where
  refl := .refl
  trans grows more := grows.trans more
  note _ _ := ⟨List.prefix_rfl, id, fun _ => Nat.le_refl _, id⟩
  nextId page stem := ⟨List.prefix_rfl, id, page.ids.le_count_next stem, id⟩
  needSignals _ := ⟨List.prefix_rfl, id, fun _ => Nat.le_refl _, fun _ => rfl⟩
  addScript page script _ := page.grows_addScript script

theorem keeps_compilePage {limit : Int} (workshop : Workshop) (stack : ExpansionStack limit) (scope : Scope)
    (topLevel : Bool) (html : Text) : (compilePage workshop stack scope topLevel html).Keeps :=
  moves_compilePage respects_grows (fun _ component _ scope => Signal.queues_any component.template scope) stack
    fun _ => Signal.queues_any html scope

end ComponentPages
