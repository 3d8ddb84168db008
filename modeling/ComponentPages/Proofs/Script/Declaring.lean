import ComponentPages.Proofs.Script.Turns
import Mathlib.Logic.Relation

/-!
What a translator has declared, over all that it is asked for. A lowering takes nothing back, also where it fails, and it
declares a signal only once the runtime is in use; so every state between two calls, however deep they are nested, grows
from the states before it. The one place where a name is added is a write at the top level.
-/
namespace ComponentPages

namespace Declarations

/-- Nothing is taken back: the declared names stay in front, and the need of the runtime stays. -/
def Grows (found later : Declarations) : Prop :=
  found.declared <+: later.declared ∧ (found.usesRuntime = true → later.usesRuntime = true)

/-- No name is declared twice, and none without the runtime. -/
structure IsSound (found : Declarations) : Prop where
  distinct : found.declared.Nodup
  backed : found.declared ≠ [] → found.usesRuntime = true

variable {found later last : Declarations}

theorem Grows.refl (found : Declarations) : found.Grows found := ⟨List.prefix_refl _, id⟩

theorem Grows.trans (first : found.Grows later) (second : later.Grows last) : found.Grows last :=
  ⟨first.1.trans second.1, fun uses => second.2 (first.2 uses)⟩

theorem isSound_empty : IsSound {} := ⟨List.nodup_nil, fun some => absurd rfl some⟩

theorem grows_needed (found : Declarations) : found.Grows { found with usesRuntime := true } :=
  ⟨List.prefix_refl _, fun _ => rfl⟩

theorem IsSound.needed (sound : found.IsSound) : IsSound { found with usesRuntime := true } :=
  ⟨sound.distinct, fun _ => rfl⟩

end Declarations

open Declarations (IsSound)

namespace Lowering

variable {α β : Type} {inUse : Bool}

/-- What was found stays and stays sound. With `inUse` this is asked where the runtime is in use already. -/
def Adds (inUse : Bool) (lowering : Lowering α) : Prop :=
  ∀ found, (inUse = true → found.usesRuntime = true) →
    found.Grows (lowering.run.run found).2 ∧ (found.IsSound → (lowering.run.run found).2.IsSound)

namespace Adds

theorem unasked {found : Declarations} : false = true → found.usesRuntime = true :=
  fun asked => absurd asked Bool.false_ne_true

theorem pure (value : α) : Adds inUse (Pure.pure value) := fun found _ => ⟨.refl found, id⟩

theorem throw (failure : Failure) : Adds inUse (throw failure : Lowering α) := fun found _ => ⟨.refl found, id⟩

theorem weaken {lowering : Lowering α} (adds : Adds false lowering) : Adds true lowering :=
  fun found _ => adds found unasked

theorem bind {first : Lowering α} (adds : Adds inUse first) {second : α → Lowering β}
    (next : ∀ value, Adds inUse (second value)) : Adds inUse (first >>= second) := by
  intro found uses
  obtain ⟨grows, keeps⟩ := adds found uses
  rw [run_bind]
  cases ran : first.run.run found with
  | mk outcome later =>
    rw [ran] at grows keeps
    cases outcome with
    | error failure => exact ⟨grows, keeps⟩
    | ok value =>
      obtain ⟨more, stays⟩ := next value later fun asked => grows.2 (uses asked)
      exact ⟨grows.trans more, fun sound => stays (keeps sound)⟩

/-- Behind the first use of the runtime it is in use. -/
theorem needed {next : Lowering α} (adds : Adds true next) : Adds false (Script.needRuntime >>= fun _ => next) := by
  intro found _
  obtain ⟨grows, keeps⟩ := adds { found with usesRuntime := true } fun _ => rfl
  rw [run_needRuntime_bind]
  exact ⟨found.grows_needed.trans grows, fun sound => keeps sound.needed⟩

theorem writeSignal (topLevel : Bool) (name value : Text) : Adds true (Script.writeSignal topLevel name value) := by
  intro found uses
  cases topLevel with
  | false => exact ⟨.refl found, id⟩
  | true =>
    change found.Grows (if found.declared.contains name then found else _) ∧
      (found.IsSound → IsSound (if found.declared.contains name then found else _))
    split
    · exact ⟨.refl found, id⟩
    · next fresh =>
      rw [List.contains_iff_mem] at fresh
      refine ⟨⟨List.prefix_append _ _, id⟩, fun sound => ⟨?_, fun _ => uses rfl⟩⟩
      refine List.nodup_append.2 ⟨sound.distinct, List.nodup_singleton name, fun declared member other same => ?_⟩
      rw [List.mem_singleton.1 same]
      exact fun equal => fresh (equal ▸ member)

/-- A lowering that begins with another one ends in a state that grows from the end of that one. -/
theorem grows_bind {first : Lowering α} (adds : Adds inUse first) {second : α → Lowering β}
    (next : ∀ value, Adds inUse (second value)) {found : Declarations}
    (uses : inUse = true → found.usesRuntime = true) :
    (first.run.run found).2.Grows ((first >>= second).run.run found).2 := by
  have grows := (adds found uses).1
  rw [run_bind]
  cases ran : first.run.run found with
  | mk outcome later =>
    rw [ran] at grows
    cases outcome with
    | error failure => exact .refl later
    | ok value => exact (next value later fun asked => grows.2 (uses asked)).1

end Adds

theorem IsNested.declared_eq {lowering : Lowering α} (nested : lowering.IsNested) (found : Declarations) :
    (lowering.run.run found).2.declared = found.declared := by
  obtain ⟨outcome, needs, runs⟩ := nested
  rw [runs]

end Lowering

namespace Script

open Lowering (Adds IsNested)

theorem adds_lowerFrom (scope : Scope) (nested : Bool) (before : Option Char) (braces : Int) (source : Text) :
    Adds false (lowerFrom scope nested before braces source) := by
  fun_induction lowerFrom scope nested before braces source with
  | case1 => exact .pure []
  | case2 nested before braces c tail rest text taken _ shorter ih => exact ih.bind fun _ => .pure _
  | case3 => exact .throw _
  | case4 nested before braces c tail rest selector every event taken inside after closed parts remainder _ shorter
      handler others => exact handler.bind fun _ => others.bind fun _ => .pure _
  | case5 nested before braces c tail rest name up taken _ shorter ih => exact .needed (ih.weaken.bind fun _ => .pure _)
  | case6 => exact .throw _
  | case7 nested before braces c tail rest name operator taken sizes trimmed parts raw topLevel some _ shorter others
      value =>
    refine .needed ?_
    split
    · exact (Adds.pure _).bind fun _ => (Adds.writeSignal _ _ _).bind fun _ => others.weaken.bind fun _ => .pure _
    · exact value.weaken.bind fun _ => (Adds.writeSignal _ _ _).bind fun _ => others.weaken.bind fun _ => .pure _
  | case8 nested before braces c tail rest name taken _ shorter ih => exact .needed (ih.weaken.bind fun _ => .pure _)
  | case9 nested before braces c tail rest selector every taken last _ shorter ih => exact ih.bind fun _ => .pure _
  | case10 nested before braces c tail rest d taken outer _ shorter ih => exact ih.bind fun _ => .pure _

section Turns

variable {scope : Scope} {call : Call} {found : Lexeme} {rest : Text}

theorem adds_turnValue (scope : Scope) (call : Call) (operator : Option Char) (raw : Text) :
    Adds false (turnValue (answer scope) scope call operator raw) := by
  unfold turnValue
  split
  · exact .pure _
  · exact adds_lowerFrom scope _ _ _ _

theorem adds_turn (scope : Scope) (call : Call) (found : Lexeme) (rest : Text) :
    Adds false (turn (answer scope) scope call found rest) := by
  unfold turn
  cases found with
  | verbatim text => exact .pure _
  | binding selector every event =>
    dsimp only
    split
    · exact .throw _
    · exact (adds_lowerFrom scope _ _ _ _).bind fun _ => .pure _
  | increment name up => exact .needed (.pure _)
  | write name operator =>
    dsimp only
    split
    · exact .throw _
    · exact .needed ((adds_turnValue scope call _ _).weaken.bind fun _ => (Adds.writeSignal _ _ _).bind fun _ => .pure _)
  | read name => exact .needed (.pure _)
  | selector selector every => exact .pure _
  | other d => exact .pure _

theorem isNested_turnValue (scope : Scope) (call : Call) (operator : Option Char) (raw : Text) :
    IsNested (turnValue (answer scope) scope call operator raw) := by
  unfold turnValue
  split
  · exact .pure _
  · exact isNested_lowerFrom scope rfl _ _ _

/-- A turn declares nothing unless it is a write at the top level. -/
theorem isNested_turn (other : ∀ name operator, found = .write name operator → call.isTop = false) :
    IsNested (turn (answer scope) scope call found rest) := by
  unfold turn
  cases found with
  | verbatim text => exact .pure _
  | binding selector every event =>
    dsimp only
    split
    · exact .throw _
    · exact (isNested_lowerFrom scope rfl _ _ _).bind fun _ => .pure _
  | increment name up => exact IsNested.needRuntime.bind fun _ => .pure _
  | write name operator =>
    rw [other name operator rfl]
    dsimp only
    split
    · exact .throw _
    · exact IsNested.needRuntime.bind fun _ => (isNested_turnValue scope call _ _).bind fun _ =>
        (IsNested.pure _).bind fun _ => .pure _
  | read name => exact IsNested.needRuntime.bind fun _ => .pure _
  | selector selector every => exact .pure _
  | other d => exact .pure _

/-- A write at the top level declares its name, unless it fails or has been declared. -/
theorem declared_write (scope : Scope) (top : call.isTop = true) (name : Text) (operator : Option Char) (rest : Text)
    (start : Declarations) :
    let later := ((turn (answer scope) scope call (.write name operator) rest).run.run start).2
    later.declared = start.declared ∨ later.declared = start.declared ++ [name] := by
  intro later
  by_cases missing : Text.trim (splitValue .code 0 rest).1 = []
  · left
    simp only [later, turn, if_pos missing]
    rfl
  · obtain ⟨outcome, needs, runs⟩ := isNested_turnValue scope call operator (Text.trim (splitValue .code 0 rest).1)
    simp only [later, turn, if_neg missing, top]
    rw [Lowering.run_needRuntime_bind, Lowering.run_bind, runs]
    cases outcome with
    | error failure => exact .inl rfl
    | ok value =>
      change (if start.declared.contains name then _ else _ : Declarations).declared = _ ∨
        (if start.declared.contains name then _ else _ : Declarations).declared = _
      split
      · exact .inl rfl
      · exact .inr rfl

end Turns

section Calls

variable {scope : Scope} {kind : CallKind} {callee caller : Call} {start state : Declarations}

theorem Calls.state_grows (calls : Calls scope kind (callee, start) (caller, state)) :
    state.Grows start ∧ (state.IsSound → start.IsSound) := by
  cases calls with
  | handler stands closed => exact ⟨.refl _, id⟩
  | value stands given unseeded => exact ⟨state.grows_needed, IsSound.needed⟩
  | @rest _ _ _ _ found rest _ stands turned =>
    have adds := adds_turn scope caller found rest state Adds.unasked
    rw [turned] at adds
    exact adds

/-- A call ends in a state that grows from the end of each call that it makes. -/
theorem Calls.end_grows (calls : Calls scope kind (callee, start) (caller, state)) :
    ((answer scope callee).run.run start).2.Grows ((answer scope caller).run.run state).2 := by
  have goes (front : Text) (next : Call) : Adds false (do pure (front ++ (← answer scope next))) :=
    (adds_lowerFrom scope _ _ _ _).bind fun _ => .pure _
  rw [answer_eq_round scope caller, round]
  cases calls with
  | handler stands closed =>
    rw [stands]
    dsimp only
    rw [turn.eq_def]
    dsimp only
    rw [closed]
    simp only [bind_assoc, pure_bind]
    exact (adds_lowerFrom scope _ _ _ _).grows_bind (fun handler => goes _ _) Adds.unasked
  | @value _ _ name rest operator stands given unseeded =>
    rw [stands]
    dsimp only
    rw [turn.eq_def]
    simp only [if_neg given, turnValue, unseeded, bind_assoc, pure_bind]
    rw [Lowering.run_needRuntime_bind]
    refine (adds_lowerFrom scope _ _ _ _).weaken.grows_bind (fun value => ?_) fun _ => rfl
    exact (Adds.writeSignal _ _ _).bind fun written => (goes _ _).weaken
  | rest stands turned =>
    rw [stands]
    dsimp only
    rw [Lowering.run_bind, turned]
    exact (adds_lowerFrom scope _ _ _ _).grows_bind (fun script => .pure _) Adds.unasked

/-- A call that is made within another one, at whatever depth, with the state that it starts in. -/
def Reaches (scope : Scope) : Call × Declarations → Call × Declarations → Prop :=
  Relation.ReflTransGen fun caller callee => ∃ kind, Calls scope kind callee caller

/-- The states on the way into a call and out of it grow one from the other. -/
theorem Reaches.grows {outer inner : Call × Declarations} (reached : Reaches scope outer inner) :
    outer.2.Grows inner.2 ∧ (outer.2.IsSound → inner.2.IsSound) ∧
      ((answer scope inner.1).run.run inner.2).2.Grows ((answer scope outer.1).run.run outer.2).2 := by
  induction reached with
  | refl => exact ⟨.refl _, id, .refl _⟩
  | tail _ calls ih =>
    obtain ⟨kind, calls⟩ := calls
    obtain ⟨onward, sound⟩ := calls.state_grows
    obtain ⟨before, keeps, behind⟩ := ih
    exact ⟨before.trans onward, fun start => sound (keeps start), calls.end_grows.trans behind⟩

end Calls

namespace Request

/-- What is found after a request; a request that fails leaves what it has found so far. -/
def after (scope : Scope) (found : Declarations) (request : Request) : Declarations :=
  ((request.lowering scope).run.run found).2

/-- What is found after a series of requests to a new translator. -/
def foundBy (scope : Scope) (requests : List Request) : Declarations := requests.foldl (after scope) {}

theorem after_eq (scope : Scope) (found : Declarations) (request : Request) :
    request.after scope found = ((answer scope request.call).run.run found).2 := by
  obtain ⟨finish, whole⟩ := request.lowering_eq scope
  rw [after, whole, map_eq_pure_bind, Lowering.run_bind]
  cases (answer scope request.call).run.run found with
  | mk outcome later => cases outcome <;> rfl

theorem after_grows (scope : Scope) (found : Declarations) (request : Request) :
    found.Grows (request.after scope found) ∧ (found.IsSound → (request.after scope found).IsSound) := by
  rw [after_eq]
  exact adds_lowerFrom scope _ _ _ _ found Adds.unasked

theorem foldl_grows (scope : Scope) (found : Declarations) (requests : List Request) :
    found.Grows (requests.foldl (after scope) found) ∧
      (found.IsSound → (requests.foldl (after scope) found).IsSound) := by
  induction requests generalizing found with
  | nil => exact ⟨.refl found, id⟩
  | cons request requests ih =>
    obtain ⟨first, keeps⟩ := after_grows scope found request
    obtain ⟨others, stays⟩ := ih (request.after scope found)
    exact ⟨first.trans others, fun sound => stays (keeps sound)⟩

end Request

open Script.Request (foundBy)

/-- Only a write at the top level declares a signal. Over any series of requests and at any call that one of them makes,
whether it fails or not: what was found before the request, at the start and at the end of the call, after the request
and after those that follow is only ever extended, with each name declared once and none without the runtime; a nested
call declares nothing; and a turn of the loop declares at most the name of the write that it stands at. -/
theorem declared_only_at_top (scope : Scope) (earlier : List Request) (request : Request) (later : List Request)
    {call : Call} {start : Declarations}
    (reached : Reaches scope (request.call, foundBy scope earlier) (call, start)) :
    let before := foundBy scope earlier
    let stop := ((answer scope call).run.run start).2
    let behind := foundBy scope (earlier ++ [request])
    let last := foundBy scope (earlier ++ request :: later)
    (before.Grows start ∧ start.Grows stop ∧ stop.Grows behind ∧ behind.Grows last) ∧
    (before.IsSound ∧ start.IsSound ∧ stop.IsSound ∧ behind.IsSound ∧ last.IsSound) ∧
    (request.call.nested = true → behind.declared = before.declared) ∧
    (call.nested = true → stop.declared = start.declared) ∧
    ∀ found rest, call.lexeme? = some (found, rest) →
      let turned := ((turn (answer scope) scope call found rest).run.run start).2
      turned.declared = start.declared ∨ call.isTop = true ∧
        ∃ name operator, found = .write name operator ∧ turned.declared = start.declared ++ [name] := by
  intro before stop behind last
  obtain ⟨first, soundStart, ends⟩ := reached.grows
  obtain ⟨second, soundStop⟩ := adds_lowerFrom scope call.nested call.before call.braces call.left start Adds.unasked
  have requested : behind = ((answer scope request.call).run.run before).2 := by
    rw [← Request.after_eq]
    exact List.foldl_concat _ _ _ _
  have followed : last = later.foldl (Request.after scope) behind := by
    rw [requested, ← Request.after_eq]
    exact List.foldl_append
  obtain ⟨fourth, soundLast⟩ := Request.foldl_grows scope behind later
  have sound : before.IsSound := (Request.foldl_grows scope {} earlier).2 Declarations.isSound_empty
  have soundBehind : behind.IsSound := by
    rw [requested]
    exact (adds_lowerFrom scope _ _ _ _ before Adds.unasked).2 sound
  refine ⟨⟨first, second, requested ▸ ends, followed ▸ fourth⟩, ?_, ?_, ?_, ?_⟩
  · exact ⟨sound, soundStart sound, soundStop (soundStart sound), soundBehind, followed ▸ soundLast soundBehind⟩
  · intro nested
    rw [requested]
    exact (isNested_lowerFrom scope nested _ _ _).declared_eq before
  · intro nested
    exact (isNested_lowerFrom scope nested _ _ _).declared_eq start
  · intro found rest stands turned
    by_cases writes : ∃ name operator, found = .write name operator ∧ call.isTop = true
    · obtain ⟨name, operator, rfl, top⟩ := writes
      rcases declared_write scope top name operator rest start with same | more
      · exact .inl same
      · exact .inr ⟨top, name, operator, rfl, more⟩
    · refine .inl ((isNested_turn fun name operator same => ?_).declared_eq start)
      exact Bool.eq_false_iff.2 fun top => writes ⟨name, operator, same, top⟩

theorem declared_only_at_top_counter :
    let request := Request.script false "#up.onclick($n += 1);"
    let start : Declarations := { declared := ["n"], usesRuntime := true }
    foundBy [] [.script false "$n = 0;"] = start ∧ Reaches [] (request.call, start) (.inner "$n += 1", start) ∧
      ((answer [] (.inner "$n += 1")).run.run start).2.declared = ["n"] := by
  intro request start
  have found : foundBy [] [.script false "$n = 0;"] = start := by decide +kernel
  have stands : request.call.lexeme? = some (.binding "#up" false "onclick", ("$n += 1);" : Text)) := by decide +kernel
  have closed : close? '(' ')' .code 1 "$n += 1);" = some (("$n += 1" : Text), (";" : Text)) := by decide +kernel
  have reached : Reaches [] (request.call, foundBy [] [.script false "$n = 0;"]) (.inner "$n += 1", start) := by
    rw [found]
    exact .single ⟨.inside, .handler stands closed⟩
  obtain ⟨-, -, -, inside, -⟩ := declared_only_at_top [] [.script false "$n = 0;"] request [] reached
  exact ⟨found, found ▸ reached, inside rfl⟩

end Script

end ComponentPages
