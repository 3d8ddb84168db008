import ComponentPages.Proofs.Hook.Calls
import ComponentPages.Proofs.Hook.Fetching
import ComponentPages.Proofs.Markup.Handler

/-!
What stands behind the hooks of a page. The scripts that select an element by an id are those of the attributes that were
written, one for one and in that order; a call that was written stands in a script; a signal that is shown is declared.
Each step of a compilation keeps this, given that markers name declared signals, which is what the steps before it leave.
-/
namespace ComponentPages

open Traced (embed emit)
open Signal (Marked MarkedScope markerOpen handlerScript handlerId)

variable {α β : Type}

namespace Hook

/-- The event and the id of an attribute. -/
def attribute? : Hook → Option (Text × Text)
  | .attribute event id => some (event, id)
  | _ => none

/-- Some call gives the signal a first value. -/
def Signaled (hooks : List Hook) (name : Text) : Prop := ∃ value, call (Script.call "signal" name (some value)) ∈ hooks

theorem Signaled.mono {hooks more : List Hook} (subset : hooks ⊆ more) {name : Text} (signaled : Signaled hooks name) :
    Signaled more name := by
  obtain ⟨value, member⟩ := signaled
  exact ⟨value, subset member⟩

theorem filterMap_attribute?_calls (calls : List Text) : (calls.map call).filterMap attribute? = [] :=
  List.filterMap_eq_nil_iff.2 fun hook member => by
    obtain ⟨_, _, rfl⟩ := List.mem_map.1 member
    rfl

end Hook

open Hook (Signaled)

namespace Signal

/-- The event and the id that the script of a handler selects by. -/
def selected? (script : Text) : Option (Text × Text) := do
  let named ← Text.after? "document.querySelectorAll(\"[data-gtml-" script
  let (event, equals) ← Text.cut? '=' named
  let quoted ← Text.after? ['\''] equals
  let (id, _) ← Text.cut? '\'' quoted
  some (event, id)

theorem selected?_handlerScript {event id : Text} (named : '=' ∉ event) (quoteless : '\'' ∉ id) (handler : Text) :
    selected? (handlerScript event id handler) = some (event, id) := by
  obtain ⟨rest, spelled⟩ := exists_handlerScript event id handler
  have free {text : Text} {c : Char} (absent : c ∉ text) : ∀ d ∈ text, d ≠ c := by
    rintro d member rfl
    exact absent member
  have quoted : Text.after? ['\''] ('\'' :: (id ++ '\'' :: rest)) = some (id ++ '\'' :: rest) := Text.after?_append ['\''] _
  rw [spelled, selected?, Text.after?_append, Option.bind_eq_bind, Option.bind_some, Text.cut?_append (free named),
    Option.bind_eq_bind, Option.bind_some]
  dsimp only
  rw [quoted, Option.bind_some, Text.cut?_append (free quoteless)]
  rfl

theorem selected?_wrap (script : Text) : selected? (wrap script) = none := rfl

/-- The scripts that select by an id are those of the attributes that were written. -/
structure Installed (page : Page) (hooks : List Hook) : Prop where
  drawn : (hooks.filterMap Hook.attribute?).map Prod.snd = (List.range' 1 (page.ids.count "gtml-on")).map handlerId
  selected : page.scripts.filterMap selected? = hooks.filterMap Hook.attribute?
  installs : ∀ script ∈ page.scripts, ∀ event id, selected? script = some (event, id) →
    ∃ handler, script = handlerScript event id handler

/-- Scripts stand behind the calls and the elements that were written; `found` holds what a template has declared and
needs so far. -/
structure Supported (found : Declarations) (page : Page) (hooks : List Hook) : Prop where
  calls : ∀ call, .call call ∈ hooks → ∃ script ∈ page.scripts, call <:+: script
  elements : ∀ name, .element name ∈ hooks → Signaled hooks name
  needs : ∀ call, .call call ∈ hooks → page.usesSignals = true ∨ found.usesRuntime = true
  declared : ∀ name ∈ found.declared, Signaled hooks name

structure Backed (found : Declarations) (page : Page) (hooks : List Hook) : Prop where
  installed : Installed page hooks
  supported : Supported found page hooks

section Steps

variable {found later : Declarations} {page : Page} {hooks : List Hook} {calls : List Text} {script event : Text}

theorem mem_addScript_self (page : Page) (script : Text) : script ∈ (page.addScript script).scripts := by
  unfold Page.addScript
  split
  · next queued => exact List.contains_iff_mem.1 queued
  · exact List.mem_append_right _ (List.mem_singleton_self script)

theorem usesSignals_addScript (page : Page) (script : Text) : (page.addScript script).usesSignals = page.usesSignals := by
  unfold Page.addScript
  split <;> rfl

theorem ids_addScript (page : Page) (script : Text) : (page.addScript script).ids = page.ids := by
  unfold Page.addScript
  split <;> rfl

theorem mem_addScript_iff {other : Text} : other ∈ (page.addScript script).scripts ↔ other ∈ page.scripts ∨ other = script := by
  unfold Page.addScript
  split
  · next queued => exact ⟨.inl, fun either => either.elim id fun same => same ▸ List.contains_iff_mem.1 queued⟩
  · rw [List.mem_append, List.mem_singleton]

/-- A script that selects by no id. -/
theorem Installed.block (installed : Installed page hooks) (foreign : selected? script = none) (calls : List Text) :
    Installed (page.addScript script) (hooks ++ calls.map .call) := by
  have attributes : (hooks ++ calls.map Hook.call).filterMap Hook.attribute? = hooks.filterMap Hook.attribute? := by
    rw [List.filterMap_append, Hook.filterMap_attribute?_calls, List.append_nil]
  refine ⟨by rw [attributes, ids_addScript]; exact installed.drawn, ?_, fun other member event id selects => ?_⟩
  · rw [attributes, ← installed.selected]
    unfold Page.addScript
    split
    · rfl
    · rw [List.filterMap_append, List.filterMap_cons_none foreign, List.filterMap_nil, List.append_nil]
  · rcases mem_addScript_iff.1 member with early | rfl
    · exact installed.installs other early event id selects
    · rw [foreign] at selects
      cases selects

/-- The attribute and the script of a handler, under the next id. The id is new, and so is the script. -/
theorem Installed.handler (installed : Installed page hooks) (named : '=' ∉ event) (calls : List Text) (handler : Text) :
    Installed
      ({ page with ids := (page.ids.next "gtml-on").2 }.addScript (handlerScript event (page.ids.next "gtml-on").1 handler))
      (hooks ++ calls.map .call ++ [.attribute event (page.ids.next "gtml-on").1]) := by
  have selects : selected? (handlerScript event (page.ids.next "gtml-on").1 handler) =
      some (event, (page.ids.next "gtml-on").1) := by
    rw [next_handlerId]
    exact selected?_handlerScript named (quote_not_mem_handlerId _) handler
  have attributes : (hooks ++ calls.map Hook.call ++ [Hook.attribute event (page.ids.next "gtml-on").1]).filterMap Hook.attribute? =
      hooks.filterMap Hook.attribute? ++ [(event, (page.ids.next "gtml-on").1)] := by
    rw [List.filterMap_append, List.filterMap_append, Hook.filterMap_attribute?_calls, List.append_nil]
    rfl
  have count : (page.ids.next "gtml-on").2.count "gtml-on" = page.ids.count "gtml-on" + 1 := by
    rw [Counters.count_next, if_pos rfl]
  have unqueued : handlerScript event (page.ids.next "gtml-on").1 handler ∉ page.scripts := by
    intro queued
    have listed := List.mem_filterMap.2 ⟨_, queued, selects⟩
    rw [installed.selected] at listed
    have drawn := List.mem_map_of_mem (f := Prod.snd) listed
    rw [installed.drawn, next_handlerId] at drawn
    obtain ⟨number, range, same⟩ := List.mem_map.1 drawn
    rw [List.mem_range'_1, handlerId_injective same] at range
    omega
  refine ⟨?_, ?_, fun other member event' id selects' => ?_⟩
  · rw [attributes, ids_addScript, count, List.map_append, installed.drawn, List.range'_1_concat, List.map_append,
      next_handlerId]
    simp [Nat.add_comm]
  · rw [attributes, ← installed.selected, Page.addScript, if_neg (by simpa using unqueued), List.filterMap_append,
      List.filterMap_cons_some selects]
    rfl
  · rcases mem_addScript_iff.1 member with early | rfl
    · exact installed.installs other early event' id selects'
    · rw [selects] at selects'
      cases selects'
      exact ⟨handler, rfl⟩

/-- A script with the calls that are listed with it. -/
theorem Supported.queue (supported : Supported found page hooks) (records : Script.Records found later calls)
    (told : Script.Told calls script) : Supported later (page.addScript script) (hooks ++ calls.map .call) where
  calls call member := by
    rcases List.mem_append.1 member with early | late
    · obtain ⟨other, queued, stands⟩ := supported.calls call early
      exact ⟨other, mem_addScript_iff.2 (.inl queued), stands⟩
    · obtain ⟨_, listed, ⟨⟩⟩ := List.mem_map.1 late
      exact ⟨script, mem_addScript_self page script, (told call listed).2⟩
  elements name member := by
    rcases List.mem_append.1 member with early | late
    · exact (supported.elements name early).mono (List.subset_append_left hooks _)
    · obtain ⟨_, _, ⟨⟩⟩ := List.mem_map.1 late
  needs call member := by
    rw [usesSignals_addScript]
    rcases List.mem_append.1 member with early | late
    · exact (supported.needs call early).imp_right records.keeps
    · obtain ⟨_, listed, ⟨⟩⟩ := List.mem_map.1 late
      exact .inr (records.needs (List.ne_nil_of_mem listed))
  declared name member := by
    rcases records.declares name member with known | ⟨value, listed⟩
    · exact (supported.declared name known).mono (List.subset_append_left hooks _)
    · exact ⟨value, List.mem_append_right hooks (List.mem_map_of_mem listed)⟩

theorem Supported.attribute (supported : Supported found page hooks) (event id : Text) :
    Supported found page (hooks ++ [.attribute event id]) where
  calls call member := supported.calls call (by simpa using member)
  elements name member := (supported.elements name (by simpa using member)).mono (List.subset_append_left hooks _)
  needs call member := supported.needs call (by simpa using member)
  declared name member := (supported.declared name member).mono (List.subset_append_left hooks _)

/-- Elements of signals that are declared. -/
theorem Backed.elements (backed : Backed found page hooks) {names : List Text} (signaled : ∀ name ∈ names, Signaled hooks name) :
    Backed found page (hooks ++ names.map .element) := by
  have attributes : (hooks ++ names.map Hook.element).filterMap Hook.attribute? = hooks.filterMap Hook.attribute? := by
    rw [List.filterMap_append, List.append_right_eq_self]
    refine List.filterMap_eq_nil_iff.2 fun hook member => ?_
    obtain ⟨_, _, rfl⟩ := List.mem_map.1 member
    rfl
  have grows : hooks ⊆ hooks ++ names.map Hook.element := List.subset_append_left hooks _
  refine ⟨⟨by rw [attributes]; exact backed.installed.drawn, by rw [attributes]; exact backed.installed.selected,
    backed.installed.installs⟩, ?_⟩
  refine ⟨fun call member => backed.supported.calls call (by simpa using member), fun name member => ?_,
    fun call member => backed.supported.needs call (by simpa using member),
    fun name member => (backed.supported.declared name member).mono grows⟩
  rcases List.mem_append.1 member with early | late
  · exact (backed.supported.elements name early).mono grows
  · obtain ⟨_, listed, ⟨⟩⟩ := List.mem_map.1 late
    exact (signaled name listed).mono grows

theorem Backed.spare (backed : Backed found page hooks) {after : Page} (spares : page.Spares after) : Backed found after hooks where
  installed := {
    drawn := by rw [spares.drawn]; exact backed.installed.drawn
    selected := by rw [spares.scripts]; exact backed.installed.selected
    installs := by rw [spares.scripts]; exact backed.installed.installs }
  supported := {
    calls := by rw [spares.scripts]; exact backed.supported.calls
    elements := backed.supported.elements
    needs := by rw [spares.signals]; exact backed.supported.needs
    declared := backed.supported.declared }

end Steps

end Signal

end ComponentPages
