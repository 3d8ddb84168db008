import ComponentPages.Placeholder
import ComponentPages.Proofs.Text
import ComponentPages.Script.Lowering

/-!
Script text inside markup. A body with balanced braces and closed strings is read up to the brace that closes it, and
lowering it as a handler declares no signal, so that the result does not depend on what was found before.
-/
namespace ComponentPages

namespace Script

/-- The inside of a string: a backslash takes the next character with it. -/
inductive Unquoted (quote : Char) : Text → Prop where
  | done : Unquoted quote []
  | plain {c : Char} {rest : Text} : c ≠ quote → c ≠ '\\' → Unquoted quote rest → Unquoted quote (c :: rest)
  | escaped {c : Char} {rest : Text} : Unquoted quote rest → Unquoted quote ('\\' :: c :: rest)

/-- Script text with closed strings and, outside of them, balanced braces. -/
inductive Balanced : Text → Prop where
  | done : Balanced []
  | plain {c : Char} {rest : Text} :
    isScriptQuote c = false → Placeholder.isBrace c = false → Balanced rest → Balanced (c :: rest)
  | string {quote : Char} {inside rest : Text} :
    isScriptQuote quote = true → Unquoted quote inside → Balanced rest →
      Balanced (quote :: inside ++ quote :: rest)
  | braces {inside rest : Text} : Balanced inside → Balanced rest → Balanced ('\x7b' :: inside ++ '\x7d' :: rest)

theorem balanced_of_flat {body : Text} (flat : ∀ c ∈ body, isScriptQuote c = false ∧ Placeholder.isBrace c = false) :
    Balanced body := by
  induction body with
  | nil => exact .done
  | cons c body ih =>
    obtain ⟨quotes, braces⟩ := flat c List.mem_cons_self
    exact .plain quotes braces (ih fun d member => flat d (List.mem_cons_of_mem c member))

section Reading

variable {opening closing c : Char}

theorem close?_inside {state : ScriptState} (inside : state ≠ .code) (depth : Nat) (rest : Text) :
    close? opening closing state depth (c :: rest) =
      (close? opening closing (state.step c) depth rest).map (prepend [c]) := by
  rw [close?, if_neg (fun closes => inside closes.1)]
  simp only [if_neg inside]
  rfl

theorem close?_outside (other : c ≠ opening) (open_ : c ≠ closing) (depth : Nat) (rest : Text) :
    close? opening closing .code depth (c :: rest) =
      (close? opening closing (ScriptState.code.step c) depth rest).map (prepend [c]) := by
  rw [close?, if_neg (fun closes => open_ closes.2.1)]
  simp only [if_pos, if_neg other, if_neg open_]
  rfl

/-- A string is read past its closing quote. -/
theorem close?_unquoted {quote : Char} {inside : Text} (quotes : isScriptQuote quote = true)
    (unquoted : Unquoted quote inside) (depth : Nat) (rest : Text) :
    close? opening closing (.string quote) depth (inside ++ quote :: rest) =
      (close? opening closing .code depth rest).map (prepend (inside ++ [quote])) := by
  induction unquoted with
  | done =>
    have solid : quote ≠ '\\' := by
      rintro rfl
      cases quotes
    rw [List.nil_append, close?_inside (by simp), ScriptState.step, if_neg solid, if_pos rfl, List.nil_append]
  | plain other solid _ ih =>
    rw [List.cons_append, close?_inside (by simp), ScriptState.step, if_neg solid, if_neg other, ih,
      map_prepend_prepend]
    rfl
  | escaped _ ih =>
    rw [List.cons_append, List.cons_append, close?_inside (by simp), ScriptState.step, if_pos rfl,
      close?_inside (by simp), ScriptState.step, ih, map_prepend_prepend, map_prepend_prepend]
    rfl

end Reading

/-- Balanced text leaves the number of open braces as it is, so none of its braces closes an outer one. -/
theorem close?_balanced {body : Text} (balanced : Balanced body) {depth : Nat} (open_ : 0 < depth) (rest : Text) :
    close? '\x7b' '\x7d' .code depth (body ++ rest) =
      (close? '\x7b' '\x7d' .code depth rest).map (prepend body) := by
  induction balanced generalizing depth rest with
  | done => exact (map_prepend_nil _).symm
  | @plain c body quotes braces _ ih =>
    simp only [Placeholder.isBrace, Bool.or_eq_false_iff, beq_eq_false_iff_ne] at braces
    rw [List.cons_append, close?_outside braces.1 braces.2, ScriptState.step, quotes, if_neg Bool.false_ne_true,
      ih open_, map_prepend_prepend]
    rfl
  | @string quote inside body quotes unquoted _ ih =>
    have outside : quote ≠ '\x7b' ∧ quote ≠ '\x7d' := by
      constructor <;> rintro rfl <;> cases quotes
    rw [List.append_assoc, List.cons_append, List.cons_append, close?_outside outside.1 outside.2, ScriptState.step,
      if_pos quotes, close?_unquoted quotes unquoted, ih open_, map_prepend_prepend, map_prepend_prepend]
    simp
  | @braces inside body _ _ ihInside ihBody =>
    have opens (text : Text) : close? '\x7b' '\x7d' .code depth ('\x7b' :: text) =
        (close? '\x7b' '\x7d' .code (depth + 1) text).map (prepend ['\x7b']) := rfl
    have closes (text : Text) : close? '\x7b' '\x7d' .code (depth + 1) ('\x7d' :: text) =
        (close? '\x7b' '\x7d' .code depth text).map (prepend ['\x7d']) := by
      rw [close?, if_neg (fun closes => by omega)]
      rfl
    rw [List.append_assoc, List.cons_append, List.cons_append, opens, ihInside (Nat.succ_pos depth), closes,
      ihBody open_, map_prepend_prepend, map_prepend_prepend, map_prepend_prepend]
    simp

/-- The brace behind a balanced body closes it. -/
theorem close?_body {body : Text} (balanced : Balanced body) (rest : Text) :
    close? '\x7b' '\x7d' .code 1 (body ++ '\x7d' :: rest) = some (body, rest) := by
  rw [close?_balanced balanced Nat.one_pos, close?, if_pos ⟨rfl, rfl, rfl⟩]
  simp [prepend]

end Script

namespace Lowering

variable {α β : Type}

theorem run_bind (first : Lowering α) (second : α → Lowering β) (found : Declarations) :
    (first >>= second).run.run found =
      match first.run.run found with
      | (.error failure, later) => (.error failure, later)
      | (.ok value, later) => (second value).run.run later := by
  rw [ExceptT.run_bind]
  cases result : StateT.run (ExceptT.run first) found with
  | mk outcome later => cases outcome <;> simp [StateT.run_bind, result] <;> rfl

/-- The lowering declares nothing, and neither its result nor its need of the runtime depends on what was found. -/
def IsNested (lowering : Lowering α) : Prop :=
  ∃ (result : Except Failure α) (needs : Bool), ∀ found : Declarations,
    lowering.run.run found = (result, { found with usesRuntime := found.usesRuntime || needs })

namespace IsNested

theorem pure (value : α) : IsNested (Pure.pure value) := ⟨.ok value, false, fun found => by rw [Bool.or_false]; rfl⟩

theorem throw (failure : Failure) : IsNested (throw failure : Lowering α) :=
  ⟨.error failure, false, fun found => by rw [Bool.or_false]; rfl⟩

theorem needRuntime : IsNested Script.needRuntime := ⟨.ok (), true, fun found => by rw [Bool.or_true]; rfl⟩

theorem bind {first : Lowering α} (nested : first.IsNested) {second : α → Lowering β}
    (next : ∀ value, (second value).IsNested) : IsNested (first >>= second) := by
  obtain ⟨outcome, needs, runs⟩ := nested
  cases outcome with
  | error failure =>
    refine ⟨.error failure, needs, fun found => ?_⟩
    rw [run_bind, runs]
  | ok value =>
    obtain ⟨outcome, more, later⟩ := next value
    refine ⟨outcome, needs || more, fun found => ?_⟩
    rw [run_bind, runs]
    dsimp only
    rw [later, Bool.or_assoc]

end IsNested

end Lowering

namespace Script

open Lowering (IsNested)

theorem isNested_lowerFrom (scope : Scope) {nested : Bool} (inner : nested = true) (before : Option Char)
    (braces : Int) (source : Text) : IsNested (lowerFrom scope nested before braces source) := by
  fun_induction lowerFrom scope nested before braces source with
  | case1 => exact .pure []
  | case2 nested before braces c tail rest text taken _ shorter ih => exact (ih inner).bind fun _ => .pure _
  | case3 => exact .throw _
  | case4 nested before braces c tail rest selector every event taken inside after closed parts remainder _ shorter
      handler others =>
    exact (handler rfl).bind fun _ => (others inner).bind fun _ => .pure _
  | case5 nested before braces c tail rest name up taken _ shorter ih =>
    exact IsNested.needRuntime.bind fun _ => (ih inner).bind fun _ => .pure _
  | case6 => exact .throw _
  | case7 nested before braces c tail rest name operator taken sizes trimmed parts raw topLevel some _ shorter others
      value =>
    -- Inside, a write is never at the top level, so that it sets its signal and declares none.
    have within : topLevel = false := by rw [show topLevel = (!nested && braces == 0) from rfl, inner]; rfl
    rw [within]
    refine IsNested.needRuntime.bind fun _ => ?_
    exact (value rfl).bind fun _ => (IsNested.pure _).bind fun _ => (others inner).bind fun _ => .pure _
  | case8 nested before braces c tail rest name taken _ shorter ih =>
    exact IsNested.needRuntime.bind fun _ => (ih inner).bind fun _ => .pure _
  | case9 nested before braces c tail rest selector every taken last _ shorter ih =>
    exact (ih inner).bind fun _ => .pure _
  | case10 nested before braces c tail rest d taken outer _ shorter ih => exact (ih inner).bind fun _ => .pure _

theorem isNested_lowerHandler (scope : Scope) (body : Text) : IsNested (lowerHandler scope body) := by
  refine (isNested_lowerFrom scope rfl none 0 _).bind fun _ => ?_
  split
  · exact .pure _
  · exact .pure _

/-- What a handler body becomes. -/
def translate (scope : Scope) (body : Text) : Except Failure Text := ((lowerHandler scope body).run.run {}).1

theorem exists_run_lowerHandler (scope : Scope) (body : Text) :
    ∃ needs : Bool, ∀ found : Declarations, (lowerHandler scope body).run.run found =
      (translate scope body, { found with usesRuntime := found.usesRuntime || needs }) := by
  obtain ⟨outcome, needs, runs⟩ := isNested_lowerHandler scope body
  refine ⟨needs, fun found => ?_⟩
  rw [translate, runs, runs]

end Script

end ComponentPages
