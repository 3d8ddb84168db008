import ComponentPages.Proofs.Hook.Tracing

/-!
The calls of the signal runtime that the lowering of a script writes. Each of them stands in the script that comes of it,
the runtime is needed as soon as there is one, and a signal is declared by a call that gives it its value.
-/
namespace ComponentPages

open Traced (embed emit)

theorem Text.infix_dropWhile {class_ : Char → Bool} {c : Char} {rest text : Text} (stays : class_ c = false)
    (stands : c :: rest <:+: text) : c :: rest <:+: text.dropWhile class_ := by
  obtain ⟨front, back, rfl⟩ := stands
  induction front with
  | nil =>
    rw [List.nil_append, List.cons_append, List.dropWhile_cons_of_neg (by simp [stays])]
    exact (List.prefix_append (c :: rest) back).isInfix
  | cons d front ih =>
    rw [List.cons_append, List.cons_append, List.dropWhile_cons]
    split
    · exact ih
    · exact ⟨d :: front, back, rfl⟩

/-- Trimming a text leaves whole what stands in it between two characters that are not blank. -/
theorem Text.infix_trim {c d : Char} {inside text : Text} (first : isBlank c = false) (last : isBlank d = false)
    (stands : c :: inside ++ [d] <:+: text) : c :: inside ++ [d] <:+: trim text := by
  have left : c :: inside ++ [d] <:+: trimLeft text := infix_dropWhile first stands
  have reversed : d :: (c :: inside).reverse <:+: (trimLeft text).reverse := by
    rw [← List.reverse_concat]
    exact List.reverse_infix.2 left
  have right := List.reverse_infix.2 (infix_dropWhile last reversed)
  rwa [← List.reverse_concat, List.reverse_reverse] at right

namespace Script

/-- The calls that are listed with a text stand in it, each from its first letter to its closing bracket. -/
def Told (calls : List Text) (text : Text) : Prop := ∀ call ∈ calls, (∃ inside, call = 'g' :: inside ++ [')']) ∧ call <:+: text

section Telling

variable {calls more : List Text} {text : Text}

theorem told_nil (text : Text) : Told [] text := List.forall_mem_nil _

theorem Told.append (told : Told calls text) (others : Told more text) : Told (calls ++ more) text := by
  intro call member
  rcases List.mem_append.1 member with early | late
  · exact told call early
  · exact others call late

theorem Told.within (told : Told calls text) {whole : Text} (stands : text <:+: whole) : Told calls whole :=
  fun call member => ⟨(told call member).1, (told call member).2.trans stands⟩

theorem Told.before (told : Told calls text) (back : Text) : Told calls (text ++ back) :=
  told.within (List.prefix_append text back).isInfix

theorem Told.behind (told : Told calls text) (front : Text) : Told calls (front ++ text) :=
  told.within (List.suffix_append front text).isInfix

theorem Told.trim (told : Told calls text) : Told calls (Text.trim text) := by
  intro call member
  obtain ⟨⟨inside, rfl⟩, stands⟩ := told call member
  exact ⟨⟨inside, rfl⟩, Text.infix_trim (by decide) (by decide) stands⟩

/-- A call as it is written. -/
theorem told_call (function name : Text) (argument? : Option Text) :
    Told [Script.call function name argument?] (Script.call function name argument?) := by
  intro call member
  obtain rfl := List.mem_singleton.1 member
  have front : ("gtml." : Text) = 'g' :: "tml." := by decide
  have back : (")" : Text) = [')'] := by decide
  refine ⟨?_, List.infix_rfl⟩
  unfold Script.call
  rw [front, back]
  exact ⟨_, by simp only [List.cons_append]; rfl⟩

theorem infix_call (function name argument : Text) : argument <:+: Script.call function name (some argument) :=
  ⟨"gtml." ++ function ++ "('" ++ name ++ "'" ++ ", ", ")",
    congrArg (· ++ (")" : Text)) (List.append_assoc (_ ++ name ++ _) (", " : Text) argument)⟩

theorem infix_forEach (selection event handler : Text) : handler <:+: forEach selection event handler :=
  ⟨selection ++ ".forEach(function(el) \x7b el." ++ event ++ " = ", "; \x7d);", rfl⟩

theorem infix_bindingCall (selector : Text) (every : Bool) (event handler : Text) :
    handler <:+: bindingCall selector every event handler := by
  cases every with
  | true => exact infix_forEach (queryCall selector true) event handler
  | false => exact ⟨queryCall selector false ++ "." ++ event ++ " = ", ";", rfl⟩

theorem infix_operated (name : Text) (operator : Option Char) (value : Text) :
    value <:+: operated name operator value := by
  cases operator with
  | none => exact List.infix_rfl
  | some sign => exact ⟨getCall name ++ " " ++ [sign] ++ " (", ")", rfl⟩

theorem told_operatorCalls (name : Text) (operator : Option Char) (value : Text) :
    Told (operatorCalls name operator) (operated name operator value) := by
  cases operator with
  | none => exact told_nil value
  | some sign =>
    refine (told_call "get" name none).within ?_
    refine ⟨[], " " ++ [sign] ++ " (" ++ value ++ ")", ?_⟩
    simp only [operated, getCall, List.nil_append, List.append_assoc]

end Telling

/-- What is found beside a list of calls: the runtime if there is a call, and names that a call declares. -/
structure Records (found later : Declarations) (calls : List Text) : Prop where
  keeps : found.usesRuntime = true → later.usesRuntime = true
  needs : calls ≠ [] → later.usesRuntime = true
  declares : ∀ name ∈ later.declared, name ∈ found.declared ∨ ∃ value, call "signal" name (some value) ∈ calls

theorem Records.refl (found : Declarations) : Records found found [] :=
  ⟨id, fun nonempty => absurd rfl nonempty, fun _ => .inl⟩

theorem Records.trans {found between later : Declarations} {calls more : List Text} (first : Records found between calls)
    (second : Records between later more) : Records found later (calls ++ more) where
  keeps := second.keeps ∘ first.keeps
  needs nonempty := by
    by_cases empty : calls = []
    · exact second.needs fun none => nonempty (by rw [empty, none, List.append_nil])
    · exact second.keeps (first.needs empty)
  declares name member := by
    rcases second.declares name member with early | ⟨value, late⟩
    · rcases first.declares name early with known | ⟨value, early⟩
      · exact .inl known
      · exact .inr ⟨value, List.mem_append_left more early⟩
    · exact .inr ⟨value, List.mem_append_right calls late⟩

variable {α β : Type}

/-- A lowering that comes back has listed calls alone, which are as told; `needed` if the runtime is needed before. -/
def Lists (needed : Bool) (traced : Traced Lowering α) (fact : List Text → α → Prop) : Prop :=
  ∀ hooks found value later after, (needed = true → found.usesRuntime = true) →
    (traced.run hooks).run.run found = (.ok (value, after), later) →
    ∃ calls, after = hooks ++ calls.map .call ∧ Records found later calls ∧ fact calls value

variable {needed : Bool} {fact : List Text → α → Prop} {conclusion : List Text → β → Prop}

theorem Lists.of_false {traced : Traced Lowering α} (lists : Lists false traced fact) : Lists needed traced fact :=
  fun hooks found value later after _ => lists hooks found value later after (fun absurd => by cases absurd)

theorem lists_pure {value : α} (holds : fact [] value) : Lists needed (pure value) fact := by
  intro hooks found result later after _ ran
  cases ran
  exact ⟨[], (List.append_nil hooks).symm, .refl found, holds⟩

theorem lists_throw (failure : Failure) : Lists needed (embed (throw failure)) fact := by
  intro hooks found result later after _ ran
  cases ran

theorem Lists.bind {traced : Traced Lowering α} (lists : Lists needed traced fact) {next : α → Traced Lowering β}
    (lists' : ∀ calls value, fact calls value → Lists needed (next value) fun more => conclusion (calls ++ more)) :
    Lists needed (traced >>= next) conclusion := by
  intro hooks found result later after holds ran
  rw [StateT.run_bind, Lowering.run_bind] at ran
  rcases first : (traced.run hooks).run.run found with ⟨outcome, between⟩
  rw [first] at ran
  cases outcome with
  | error failure => cases ran
  | ok reached =>
    obtain ⟨value, middle⟩ := reached
    obtain ⟨calls, rfl, records, known⟩ := lists hooks found value between middle holds first
    obtain ⟨more, rfl, recordsMore, concluded⟩ :=
      lists' calls value known _ between result later after (records.keeps ∘ holds) ran
    refine ⟨calls ++ more, ?_, records.trans recordsMore, concluded⟩
    rw [List.map_append, List.append_assoc]

theorem lists_needRuntime {next : Traced Lowering α} (lists : Lists true next fact) :
    Lists needed (embed needRuntime >>= fun _ => next) fact := by
  intro hooks found value later after _ ran
  obtain ⟨calls, listed, records, holds⟩ :=
    lists hooks { found with usesRuntime := true } value later after (fun _ => rfl) ran
  exact ⟨calls, listed, ⟨fun _ => records.keeps rfl, records.needs, records.declares⟩, holds⟩

theorem lists_emit {calls : List Text} {next : Traced Lowering α} (lists : Lists true next fun more => fact (calls ++ more)) :
    Lists true (emit (calls.map .call) >>= fun _ => next) fact := by
  intro hooks found value later after needed ran
  change (next.run (hooks ++ calls.map .call)).run.run found = _ at ran
  obtain ⟨more, rfl, records, holds⟩ := lists (hooks ++ calls.map .call) found value later after needed ran
  refine ⟨calls ++ more, ?_, ⟨records.keeps, fun _ => records.keeps (needed rfl), fun name member => ?_⟩, holds⟩
  · rw [List.map_append, List.append_assoc]
  · rcases records.declares name member with known | ⟨value, late⟩
    · exact .inl known
    · exact .inr ⟨value, List.mem_append_right calls late⟩

/-- A write declares no other signal than the one that its call gives a value. -/
theorem lists_traceWrite (topLevel : Bool) (name value : Text) :
    Lists true (traceWrite topLevel name value) fun calls written =>
      calls = [written] ∧ ∃ function, written = call function name (some value) := by
  intro hooks found written later after needed ran
  cases topLevel with
  | false =>
    cases ran
    refine ⟨[_], rfl, ⟨id, fun _ => needed rfl, fun _ => .inl⟩, rfl, "set", rfl⟩
  | true =>
    cases ran
    refine ⟨[_], rfl, ?_, rfl, "signal", rfl⟩
    have declared : Records found (if found.declared.contains name then found
        else { found with declared := found.declared ++ [name] }) [call "signal" name (some value)] := by
      split
      · exact ⟨id, fun _ => needed rfl, fun _ => .inl⟩
      · refine ⟨id, fun _ => needed rfl, fun other member => ?_⟩
        rcases List.mem_append.1 member with known | new
        · exact .inl known
        · obtain rfl := List.mem_singleton.1 new
          exact .inr ⟨value, List.mem_singleton_self _⟩
    exact declared

theorem lists_traceFrom (scope : Scope) (nested : Bool) (before : Option Char) (braces : Int) (source : Text) :
    Lists false (traceFrom scope nested before braces source) Told := by
  fun_induction traceFrom scope nested before braces source with
  | case1 => exact lists_pure (told_nil [])
  | case2 nested before braces c tail rest text taken _ shorter ih =>
    exact ih.bind fun calls later told => lists_pure (by rw [List.append_nil]; exact told.behind text)
  | case3 => exact lists_throw _
  | case4 nested before braces c tail rest selector every event taken inside after closed parts remainder _ shorter handler
      others =>
    refine handler.bind fun calls lowered told => others.bind fun more later toldLater => lists_pure ?_
    rw [List.append_nil]
    exact ((told.trim.within (infix_bindingCall _ _ _ _)).before later).append (toldLater.behind _)
  | case5 nested before braces c tail rest name up taken _ shorter ih =>
    have told : Told [getCall name, incrementCall name up] (incrementCall name up) := by
      refine Told.append ((told_call "get" name none).within ?_) (told_call "set" name _)
      refine List.IsInfix.trans ?_ (infix_call "set" name _)
      exact ⟨[], " " ++ [if up then '+' else '-'] ++ " 1", by simp only [getCall, List.nil_append, List.append_assoc]⟩
    refine lists_needRuntime (@lists_emit _ _ [getCall name, incrementCall name up] _ ?_)
    refine ih.of_false.bind fun more later toldLater => lists_pure ?_
    rw [List.append_nil]
    exact (told.before later).append (toldLater.behind _)
  | case6 => exact lists_throw _
  | case7 nested before braces c tail rest name operator taken sizes trimmed parts raw topLevel solid _ shorter others value =>
    have written (value : Text) (calls : List Text) (told : Told calls value) : Lists true (do
        emit ((operatorCalls name operator).map .call)
        let written ← traceWrite topLevel name (operated name operator value)
        let later ← traceFrom scope nested parts.1.getLast? braces parts.2
        pure (written ++ later)) fun more => Told (calls ++ more) := by
      refine lists_emit ((lists_traceWrite _ _ _).bind ?_)
      rintro _ written ⟨rfl, function, rfl⟩
      refine others.of_false.bind fun more later toldLater => lists_pure ?_
      have inner : Told (calls ++ operatorCalls name operator) (operated name operator value) :=
        (told.within (infix_operated _ _ _)).append (told_operatorCalls _ _ _)
      have outer := (inner.within (infix_call function name _)).append (told_call function name _)
      have whole := (outer.before later).append (toldLater.behind _)
      simpa only [List.append_assoc, List.append_nil] using whole
    refine lists_needRuntime ?_
    dsimp only
    cases seed? scope topLevel operator raw with
    | some literal => exact written literal [] (told_nil literal)
    | none => exact value.of_false.bind fun calls value told => written value calls told
  | case8 nested before braces c tail rest name taken _ shorter ih =>
    refine lists_needRuntime (@lists_emit _ _ [getCall name] _ ?_)
    refine ih.of_false.bind fun more later toldLater => lists_pure ?_
    rw [List.append_nil]
    exact ((told_call "get" name none).before later).append (toldLater.behind _)
  | case9 nested before braces c tail rest selector every taken last _ shorter ih =>
    exact ih.bind fun calls later told => lists_pure (by rw [List.append_nil]; exact told.behind _)
  | case10 nested before braces c tail rest d taken outer _ shorter ih =>
    exact ih.bind fun calls later told => lists_pure (by rw [List.append_nil]; exact told.behind [d])

theorem lists_traceHandler (scope : Scope) (body : Text) : Lists false (traceHandler scope body) Told := by
  refine (lists_traceFrom scope true none 0 (Text.trim body)).bind fun calls lowered told => ?_
  split
  · exact lists_pure (by rwa [List.append_nil])
  · exact lists_pure (by rw [List.append_nil]; exact (told.behind _).before _)

end Script

end ComponentPages
