import ComponentPages.Proofs.Checked.Argument
import ComponentPages.Proofs.Checked.Script
import ComponentPages.Proofs.Markup.Handler

/-!
Scripts, inline handlers and signals of a template, lowered with checked operations. The brace that a handler opens with
is found by what the match before it leaves, and the handler is cut out between that brace and the one that closes it.
-/
namespace ComponentPages

namespace Text

/-- The character before the index behind a character. -/
theorem getLast?_take_succ {text rest : Text} {index : Nat} {c : Char} (stands : text.drop index = c :: rest) :
    (text.take (index + 1)).getLast? = some c := by
  have here : text[index]? = some c := by rw [← List.head?_drop, stands, List.head?_cons]
  rw [List.take_add_one, here, Option.toList_some, List.getLast?_concat]

end Text

namespace Checked

open Guarded (embed check)
open Signal (Part partsFrom handlerStart handlerHere?)

/-- The handler that starts at an index, and what stands behind its brace. -/
def handlerAt (html : Text) (blocks : List Span) (index : Nat) : Checked (Option (Text × Text)) :=
  match if (html.take index).getLast?.any isBlank then handlerStart (html.drop index) else none with
  | none => .ok none
  | some found => do
    if (← insideTag (fun c => isLetter c && !isUpper c) html index) && !covered blocks index then .ok (some found)
    else .ok none

/-- The part of a template at an index. Nothing follows a handler that is not closed. -/
def partTurn (html : Text) (blocks : List Span) (found : List Part) (index : Nat) :
    Checked (Turn (List Part × Nat) (List Part)) := do
  match ← handlerAt html blocks index with
  | none => (charAt html index).map fun c => .next (found ++ [.plain c], index + 1)
  | some (event, body) =>
    let opened := html.length - body.length - 1
    match ← enclosureEnd '\x7b' '\x7d' html opened with
    | none => .ok (.stop (found ++ [.unclosed event (Text.slice html index (index + 60))]))
    | some close => .ok (.next (found ++ [.handler event (Text.slice html (opened + 1) close)], close + 1))

/-- The parts of a template. -/
def handlerParts (html : Text) : Checked (List Part) :=
  loop html (partTurn html (Block.spans html)) (fun found _ => found) [] 0

/-- Runs the lowering of a script and keeps what it declared. -/
def runLowering (found : Declarations) (lowering : Guarded Lowering Text) : Guarded Compile (Text × Declarations) :=
  match lowering.run.run.run found with
  | (.ok (.ok script), found) => pure (script, found)
  | (.ok (.error crash), _) => check (.error crash)
  | (.error failure, _) => embed (throw failure)

/-- Queues the scripts of the dialect's script elements. -/
def queueBlocks (scope : Scope) (sources : List Text) : Guarded Compile Declarations :=
  sources.foldlM (fun found source => do
    if source.all isBlank then pure found
    else
      let (script, found) ← runLowering found (lowerAt scope false source none 0 0)
      embed (Compile.addScript (Signal.wrap (Text.trim script)))
      pure found) {}

/-- Writes one part, queueing the script of a handler. -/
def lowerPart (scope : Scope) (found : Declarations) : Part → Guarded Compile (Text × Declarations)
  | .plain c => pure ([c], found)
  | .handler written body => do
    let event := Text.lower written
    let id ← embed (Compile.nextId "gtml-on")
    let (handler, found) ← runLowering found (lowerHandler scope body)
    embed (Compile.addScript (Signal.handlerScript event id handler))
    pure (Signal.handlerAttribute event id, found)
  | .unclosed event snippet => embed (throw (.unclosedHandler event snippet))

def lowerParts (scope : Scope) (found : Declarations) : List Part → Guarded Compile (Text × Declarations)
  | [] => pure ([], found)
  | part :: rest => do
    let (first, found) ← lowerPart scope found part
    let (others, found) ← lowerParts scope found rest
    pure (first ++ others, found)

/-- What a segment of a text becomes: a placeholder in reach that names a signal is marked. -/
def markSegment (html : Text) (names : List Text) (offset : Nat) : Segment Text → Checked Text
  | .plain c => .ok [c]
  | .hit source name => do
    if names.contains name && !(← frozen (Block.spans html) html offset) then
      .ok (Signal.markerOpen :: name ++ [Signal.markerClose])
    else .ok source

/-- Marks the placeholders in reach that name one of the given signals. -/
def mark (html : Text) (names : List Text) : Checked Text :=
  if names = [] then .ok html
  else do
    let parts ← (Pattern.located 0 (Pattern.segments Signal.placeholder html)).mapM fun place =>
      markSegment html names place.1 place.2
    .ok parts.flatten

/-- Takes scripts and inline handlers out of a template and marks its signals. -/
def lowerSignals (html : Text) (scope : Scope) : Guarded Compile Text := do
  let found ← queueBlocks scope (Pattern.values Signal.block html)
  let parts ← check (handlerParts (Pattern.erase Signal.block html))
  let (lowered, found) ← lowerParts scope found parts
  embed do
    if found.usesRuntime then Compile.needSignals
    if found.declared ≠ [] then Compile.note [.declaredSignals found.declared]
  check (mark lowered found.declared)

theorem handlerAt_eq {html : Text} {index : Nat} (within : index ≤ html.length) (blocks : List Span) :
    handlerAt html blocks index =
      .ok (handlerHere? blocks html index (html.take index).getLast? (html.drop index)) := by
  rw [handlerAt, handlerHere?, insideTag_eq _ within]
  cases if (html.take index).getLast?.any isBlank then handlerStart (html.drop index) else none with
  | none => rfl
  | some found =>
    rw [Option.filter_some]
    exact apply_ite Except.ok _ _ _ |>.symm

theorem handlerParts_eq (html : Text) : handlerParts html = .ok (Signal.parts html) := by
  refine loop_eq (fun found index rest => found ++ partsFrom (Block.spans html) html index (html.take index).getLast? rest)
    (fun found index => by rw [partsFrom, List.append_nil]) (fun found index c rest stands => ?_) [] 0
  have size := Text.length_of_drop stands
  have next := Text.drop_succ_of_cons stands
  rw [partTurn, handlerAt_eq (by omega), ok_bind, stands]
  cases starts : handlerHere? (Block.spans html) html index (html.take index).getLast? (c :: rest) with
  | none =>
    rw [charAt_of_drop stands, map_ok, Signal.partsFrom_plain starts]
    refine .inr ⟨_, _, rfl, Nat.lt_succ_self index, ?_⟩
    rw [next, Text.getLast?_take_succ stands, List.append_assoc, List.singleton_append]
  | some handler =>
    obtain ⟨event, body⟩ := handler
    obtain ⟨written, whole, -⟩ := Signal.eq_of_handlerStart (Signal.handlerHere?_eq_some_iff.1 starts).2.1
    have sizes := congrArg List.length whole
    rw [List.length_cons, List.length_append, List.length_cons] at sizes
    have opened : html.length - body.length - 1 = index + written.length := by omega
    have brace : html.drop (index + written.length) = '\x7b' :: body := Text.drop_of_drop (stands.trans whole)
    rw [Signal.partsFrom_of_starts starts]
    dsimp only
    rw [opened, enclosureEnd_eq (by decide) (by decide) brace, ok_bind]
    cases closed : Script.close? '\x7b' '\x7d' .code 1 body with
    | none =>
      refine .inl ?_
      dsimp only [Option.map_none]
      rw [Text.slice, List.drop_take, stands, Nat.add_sub_cancel_left]
    | some parts =>
      obtain ⟨inside, after⟩ := parts
      have split := Script.eq_of_close? closed
      have behind := (Text.drop_succ_of_cons brace).trans split
      have lengths := congrArg List.length split
      rw [List.length_append, List.length_cons] at lengths
      have onward : index < index + written.length + 1 + inside.length + 1 := by omega
      refine .inr ⟨_, _, rfl, onward, ?_⟩
      dsimp only [Option.map_some]
      rw [Text.drop_succ_of_drop behind, Text.getLast?_take_succ (Text.drop_of_drop behind), Text.slice_of_drop behind,
        List.append_assoc, List.singleton_append]
      rw [show index + written.length + 1 + inside.length + 1 = index + (rest.length + 1 - after.length) by omega]

theorem runLowering_eq (found : Declarations) (lowering : Lowering Text) :
    runLowering found (embed lowering) = embed (Signal.runLowering found lowering) := by
  have ran : (embed lowering : Guarded Lowering Text).run.run.run found =
      ((lowering.run.run found).1.map .ok, (lowering.run.run found).2) := by
    rw [Guarded.embed, ExceptT.run_lift]
    change StateT.run (ExceptT.run (Except.ok <$> lowering)) found = _
    rw [ExceptT.run_map, StateT.run_map]
    rfl
  rw [runLowering, Signal.runLowering, ran]
  rcases lowering.run.run found with ⟨_ | script, later⟩ <;> rfl

theorem queueBlocks_eq (scope : Scope) (sources : List Text) :
    queueBlocks scope sources = embed (Signal.queueBlocks scope sources) := by
  rw [queueBlocks, Signal.queueBlocks, Guarded.embed_foldlM]
  congr 1
  funext found source
  rw [Guarded.embed_ite, Guarded.embed_pure, lowerAt_eq, runLowering_eq, Guarded.embed_bind]
  rfl

theorem lowerPart_eq (scope : Scope) (found : Declarations) (part : Part) :
    lowerPart scope found part = embed (Signal.lowerPart scope found part) := by
  cases part with
  | plain c => exact (Guarded.embed_pure _).symm
  | handler written body =>
    rw [lowerPart, Signal.lowerPart, Guarded.embed_bind]
    refine bind_congr fun id => ?_
    rw [lowerHandler_eq, runLowering_eq, Guarded.embed_bind]
    exact bind_congr fun parts => (Guarded.embed_bind_pure _ _).symm
  | unclosed event snippet => rfl

theorem lowerParts_eq (scope : Scope) (found : Declarations) (parts : List Part) :
    lowerParts scope found parts = embed (Signal.lowerParts scope found parts) := by
  induction parts generalizing found with
  | nil => exact (Guarded.embed_pure _).symm
  | cons part rest ih =>
    rw [lowerParts, Signal.lowerParts, lowerPart_eq, Guarded.embed_bind]
    refine bind_congr fun first => ?_
    dsimp only
    rw [ih, Guarded.embed_bind_pure]

theorem mark_eq (html : Text) (names : List Text) : mark html names = .ok (Signal.mark html names) := by
  rw [mark, Signal.mark]
  split
  · rfl
  · rw [mapM_eq fun place member => ?_, ok_bind, List.flatMap_def]
    obtain ⟨offset, segment⟩ := place
    cases segment with
    | plain c => rfl
    | hit source name =>
      have bound := Pattern.le_of_mem_located member
      rw [Pattern.flatMap_source_segments, Nat.zero_add] at bound
      have within : offset ≤ html.length := Nat.le_trans (Nat.le_add_right _ _) bound
      dsimp only
      rw [markSegment, frozen_eq within, ok_bind]
      exact (apply_ite Except.ok _ _ _).symm

theorem lowerSignals_eq (html : Text) (scope : Scope) : lowerSignals html scope = embed (Signal.lower html scope) := by
  rw [lowerSignals, Signal.lower, queueBlocks_eq, Guarded.embed_bind]
  refine bind_congr fun found => ?_
  rw [Guarded.check_ok (handlerParts_eq _), pure_bind, lowerParts_eq, Guarded.embed_bind]
  refine bind_congr fun parts => ?_
  dsimp only
  rw [Guarded.check_ok (mark_eq _ _), ← Guarded.embed_bind_pure]
  cases parts.2.usesRuntime <;> by_cases declares : parts.2.declared ≠ [] <;> simp [declares]

end Checked

end ComponentPages
