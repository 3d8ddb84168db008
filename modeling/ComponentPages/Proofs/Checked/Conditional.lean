import ComponentPages.Proofs.Checked.Expression

/-!
Conditionals, settled with checked operations. The brace of a conditional is found by reading ahead from every brace;
from there a cursor is handed from one joint to the next, each of which the text may end before.
-/
namespace ComponentPages

open Conditional (opens seekFrom? splitCondition? branch? afterJoint readBranch)

namespace Checked

open Guarded (embed check)

/-- One character behind a brace that may open a conditional, given the open braces and whether a question mark stood at
its level. -/
def opensTurn (state : Nat × Bool) (_ : Nat) (c : Char) : Turn (Nat × Bool) Bool :=
  if c = '\x7b' then .next (state.1 + 1, state.2)
  else if c = '\x7d' then if state.1 = 1 then .stop false else .next (state.1 - 1, state.2)
  else if state.1 = 1 && c = '?' then .next (state.1, true)
  else if state.1 = 1 && c = '(' && state.2 then .stop true
  else .next state

/-- Whether the brace before an index opens a conditional. -/
def opensConditional (html : Text) (index : Nat) : Checked Bool := each html opensTurn (fun _ _ => false) (1, false) index

def startTurn (html : Text) (blocks : List Span) (_ : Unit) (index : Nat) : Checked (Turn (Unit × Nat) (Option Nat)) := do
  let c ← charAt html index
  if c = '\x7b' && !covered blocks index then
    if ← opensConditional html (index + 1) then .ok (.stop (some index)) else .ok (.next ((), index + 1))
  else .ok (.next ((), index + 1))

/-- Where the first conditional stands. -/
def conditionalStart (html : Text) : Checked (Option Nat) :=
  loop html (startTurn html (Block.spans html)) (fun _ _ => none) () 0

def conditionTurn (nesting : Nesting) (index : Nat) (c : Char) : Turn Nesting (Option (Nat × Char)) :=
  if nesting.isOutside && (c == '?' || c == '\x7d') then .stop (some (index, c)) else .next (nesting.step '(' ')' c)

/-- Where a condition ends, and the character that ends it. -/
def conditionEnd (html : Text) (start : Nat) : Checked (Option (Nat × Char)) :=
  each html conditionTurn (fun _ _ => none) {} start

def jointTurn (joint : Joint) (snippet : Text) (_ : Unit) (index : Nat) (c : Char) : Turn Unit (Except Failure Nat) :=
  if c = joint.token then .stop (.ok index)
  else if isBlank c then .next ()
  else .stop (.error (.conditionalMisplaced joint snippet))

/-- Where the token of a joint stands, which white space may precede. -/
def jointIndex (joint : Joint) (snippet html : Text) (start : Nat) : Guarded (Except Failure) Nat := do
  let found ← check (each html (jointTurn joint snippet) (fun _ _ => .error (.conditionalAbsent joint snippet)) () start)
  embed found

def parenthesisTurn (depth index : Nat) (c : Char) : Turn Nat (Option Nat) :=
  if c = '(' then .next (depth + 1)
  else if c = ')' then if depth = 1 then .stop (some index) else .next (depth - 1)
  else .next depth

/-- Where the parenthesis is closed that stands at an index. -/
def branchEnd (truthy : Bool) (snippet html : Text) (start : Nat) : Guarded (Except Failure) Nat := do
  match ← check (each html parenthesisTurn (fun _ _ => none) 0 start) with
  | some stop => pure stop
  | none => embed (.error (.conditionalBranch truthy snippet))

/-- The conditional whose brace stands at an index, and the index behind it. -/
def readConditional (html : Text) (start : Nat) : Guarded (Except Failure) (Conditional × Nat) := do
  if (← check (charAt html start)) = '\x7b' then
    match ← check (conditionEnd html (start + 1)) with
    | none => embed (.error (.conditionalUnfinished (html.drop start)))
    | some (question, mark) =>
      if mark = '\x7d' then embed (.error (.conditionalQuestion (Text.slice html start (question + 1))))
      else
        let snippet := Text.slice html start (start + 80)
        let truthyStart ← jointIndex .openTruthy snippet html (question + 1)
        let truthyEnd ← branchEnd true snippet html truthyStart
        let colon ← jointIndex .colon snippet html (truthyEnd + 1)
        let falsyStart ← jointIndex .openFalsy snippet html (colon + 1)
        let falsyEnd ← branchEnd false snippet html falsyStart
        let closing ← jointIndex .closing snippet html (falsyEnd + 1)
        let condition := Text.trim (Text.slice html (start + 1) question)
        pure (⟨condition, Text.slice html (truthyStart + 1) truthyEnd, Text.slice html (falsyStart + 1) falsyEnd⟩,
          closing + 1)
  else embed (.error (.conditionalBrace start (Text.slice html start (start + 40))))

/-- The branch that a condition chooses. -/
def choose (conditional : Conditional) (scope : Scope) : Guarded (Except Failure) Text := do
  match ← evaluate conditional.condition scope with
  | .boolean true => pure conditional.truthy
  | .boolean false => pure conditional.falsy
  | value => embed (.error (.conditionType conditional.condition value.type))

/-- The text with every conditional replaced by its chosen branch. Every round must make the text shorter. -/
def settle (html : Text) (scope : Scope) : Guarded (Except Failure) Text := do
  match ← check (conditionalStart html) with
  | none => pure html
  | some start =>
    let (conditional, stop) ← readConditional html start
    let branch ← choose conditional scope
    if _shorter : branch.length < html.length then
      let replacement ← settle branch scope
      let settled := html.take start ++ replacement ++ html.drop stop
      if _shorter : settled.length < html.length then settle settled scope else check (.error .endless)
    else check (.error .endless)
termination_by html.length
decreasing_by
  · assumption
  · assumption

theorem opensConditional_eq (html : Text) (index : Nat) : opensConditional html index = .ok (opens 1 false (html.drop index)) := by
  refine each_eq (fun state _ rest => opens state.1 state.2 rest) (fun _ _ => rfl) (fun state index c rest _ => ?_)
    (1, false) index
  rw [opens, opensTurn]
  split
  · rfl
  · split
    · split
      · next outermost => rw [outermost]; rfl
      · next inner => rw [bne_iff_ne.2 inner, Bool.true_and]; rfl
    · split
      · rfl
      · split
        · rfl
        · rfl

theorem conditionalStart_eq (html : Text) : conditionalStart html = .ok (Conditional.start? html) := by
  have whole : conditionalStart html = .ok ((seekFrom? (Block.spans html) 0 (html.drop 0)).map
      fun found => 0 + found.1.length) := by
    refine loop_eq (fun _ index rest => (seekFrom? (Block.spans html) index rest).map
      fun (found : Text × Text) => index + found.1.length) (fun _ _ => rfl) (fun _ index c rest stands => ?_) () 0
    have behind : html.drop (index + 1) = rest := Text.drop_succ_of_cons stands
    have passed : ((seekFrom? (Block.spans html) (index + 1) (html.drop (index + 1))).map
        fun (found : Text × Text) => index + 1 + found.1.length) =
        ((seekFrom? (Block.spans html) (index + 1) rest).map fun found => (c :: found.1, found.2)).map
          fun (found : Text × Text) => index + found.1.length := by
      rw [behind, place_cons]
    rw [startTurn, charAt_of_drop stands, ok_bind, opensConditional_eq, behind, seekFrom?]
    by_cases brace : (c = '\x7b' && !covered (Block.spans html) index) = true
    · rw [if_pos brace, brace, Bool.true_and, ok_bind]
      by_cases opening : opens 1 false rest = true
      · rw [if_pos opening, if_pos opening]
        exact .inl rfl
      · rw [if_neg opening, if_neg opening]
        exact .inr ⟨(), index + 1, rfl, Nat.lt_succ_self index, passed⟩
    · rw [if_neg brace, Bool.eq_false_iff.2 brace, Bool.false_and, if_neg Bool.false_ne_true]
      exact .inr ⟨(), index + 1, rfl, Nat.lt_succ_self index, passed⟩
  simpa [Conditional.start?, Conditional.seek?] using whole

theorem conditionEnd_eq (html : Text) (start : Nat) :
    conditionEnd html start = .ok ((splitCondition? {} (html.drop start)).map
      fun found => (start + found.1.length, found.2.1)) := by
  refine each_eq (fun nesting index rest => (splitCondition? nesting rest).map
    fun (found : Text × Char × Text) => (index + found.1.length, found.2.1)) (fun _ _ => rfl)
    (fun nesting index c rest _ => ?_) {} start
  rw [splitCondition?, conditionTurn]
  by_cases ends : (nesting.isOutside && (c == '?' || c == '\x7d')) = true
  · rw [if_pos ends, if_pos ends]
    rfl
  · rw [if_neg ends, if_neg ends, Option.map_map]
    congr 1
    funext found
    simp only [Function.comp_apply, List.length_cons, Prod.mk.injEq, and_true]
    omega

theorem each_jointTurn (joint : Joint) (snippet html : Text) (start : Nat) :
    (each html (jointTurn joint snippet) (fun _ _ => .error (.conditionalAbsent joint snippet)) () start) =
      .ok ((afterJoint joint snippet (html.drop start)).map fun _ => Text.runEnd isBlank html start) := by
  refine each_eq (fun _ index rest => (afterJoint joint snippet rest).map fun _ => index + (rest.takeWhile isBlank).length)
    (fun _ _ => rfl) (fun _ index c rest _ => ?_) () start
  have solid : isBlank joint.token = false := by cases joint <;> decide
  rw [afterJoint, jointTurn]
  by_cases token : c = joint.token
  · subst token
    rw [Text.trimLeft_cons_of_not_blank solid, if_pos rfl, List.takeWhile_cons_of_neg (by rw [solid]; exact Bool.false_ne_true)]
    dsimp only
    rw [if_pos rfl]
    rfl
  · rw [if_neg token]
    by_cases blank : isBlank c = true
    · rw [if_pos blank, List.takeWhile_cons_of_pos blank, Text.trimLeft, List.dropWhile_cons_of_pos blank, afterJoint,
        Text.trimLeft, List.length_cons, Nat.add_right_comm, Nat.add_assoc]
      rfl
    · rw [if_neg blank, Text.trimLeft_cons_of_not_blank (Bool.eq_false_iff.2 blank)]
      dsimp only
      rw [if_neg token]
      rfl

theorem jointIndex_of_error {joint : Joint} {snippet html : Text} {start : Nat} {failure : Failure}
    (failed : afterJoint joint snippet (html.drop start) = .error failure) :
    jointIndex joint snippet html start = embed (.error failure) := by
  rw [jointIndex, Guarded.check_ok (each_jointTurn joint snippet html start), pure_bind, failed]
  rfl

theorem jointIndex_of_ok {joint : Joint} {snippet html rest : Text} {start : Nat}
    (found : afterJoint joint snippet (html.drop start) = .ok rest) :
    ∃ index, html.drop index = joint.token :: rest ∧ jointIndex joint snippet html start = pure index := by
  refine ⟨Text.runEnd isBlank html start, (Text.drop_blankEnd html start).trans (Conditional.eq_of_afterJoint found), ?_⟩
  rw [jointIndex, Guarded.check_ok (each_jointTurn joint snippet html start), pure_bind, found]
  rfl

theorem each_parenthesisTurn {html rest : Text} {start : Nat} (stands : html.drop start = '(' :: rest) :
    each html parenthesisTurn (fun _ _ => none) 0 start = .ok ((branch? 1 rest).map fun found => start + 1 + found.1.length) := by
  have turned (depth index : Nat) (c : Char) (rest : Text) :
      ((branch? depth (c :: rest)).map fun (found : Text × Text) => index + found.1.length) =
        (parenthesisTurn depth index c).result fun next =>
          (branch? next rest).map fun found => index + 1 + found.1.length := by
    have later (next : Nat) : ((branch? next rest).map fun found => (c :: found.1, found.2)).map
        (fun (found : Text × Text) => index + found.1.length) =
        (branch? next rest).map fun found => index + 1 + found.1.length := place_cons index c _
    rw [branch?, parenthesisTurn]
    by_cases opens : c = '('
    · subst opens
      rw [if_neg (fun both => absurd both.1 (by decide)), if_pos rfl, if_pos rfl]
      exact later _
    · rw [if_neg opens, if_neg opens]
      by_cases closes : c = ')'
      · subst closes
        rw [if_pos rfl]
        by_cases outermost : depth = 1
        · rw [if_pos ⟨rfl, outermost⟩, if_pos outermost]
          rfl
        · rw [if_neg (fun both => outermost both.2), if_neg outermost, if_pos rfl]
          exact later _
      · rw [if_neg (fun both => closes both.1), if_neg closes, if_neg closes]
        exact later _
  have whole : each html parenthesisTurn (fun _ _ => none) 0 start =
      .ok ((branch? 0 (html.drop start)).map fun found => start + found.1.length) :=
    each_eq (fun depth index rest => (branch? depth rest).map fun (found : Text × Text) => index + found.1.length)
      (fun _ _ => rfl) (fun depth index c rest _ => turned depth index c rest) 0 start
  rw [whole, stands, turned]
  rfl

theorem branchEnd_of_error {truthy : Bool} {snippet html rest : Text} {start : Nat} {failure : Failure}
    (stands : html.drop start = '(' :: rest) (failed : readBranch truthy snippet rest = .error failure) :
    branchEnd truthy snippet html start = embed (.error failure) := by
  rw [branchEnd, Guarded.check_ok (each_parenthesisTurn stands), pure_bind]
  rw [readBranch] at failed
  cases found : branch? 1 rest with
  | none =>
    rw [found] at failed
    cases failed
    rfl
  | some parts =>
    rw [found] at failed
    cases failed

theorem branchEnd_of_ok {truthy : Bool} {snippet html rest inside after : Text} {start : Nat}
    (stands : html.drop start = '(' :: rest) (found : readBranch truthy snippet rest = .ok (inside, after)) :
    branchEnd truthy snippet html start = pure (start + 1 + inside.length) ∧
      Text.slice html (start + 1) (start + 1 + inside.length) = inside ∧
      html.drop (start + 1 + inside.length + 1) = after := by
  rw [readBranch] at found
  cases ended : branch? 1 rest with
  | none =>
    rw [ended] at found
    cases found
  | some parts =>
    rw [ended] at found
    cases found
    have behind : html.drop (start + 1) = inside ++ ')' :: after := by
      rw [Text.drop_succ_of_cons stands]
      exact Conditional.eq_of_branch? ended
    refine ⟨?_, Text.slice_of_drop behind, Text.drop_succ_of_drop behind⟩
    rw [branchEnd, Guarded.check_ok (each_parenthesisTurn stands), pure_bind, ended]
    rfl

/-- Reading a conditional fails in the same way or ends where what it leaves begins. -/
theorem readConditional_cases {html text : Text} {start : Nat} (stands : html.drop start = text) (nonempty : text ≠ []) :
    (∃ failure, Conditional.read start text = .error failure ∧ readConditional html start = embed (.error failure)) ∨
      ∃ conditional rest stop, Conditional.read start text = .ok (conditional, rest) ∧ html.drop stop = rest ∧
        readConditional html start = pure (conditional, stop) := by
  obtain ⟨c, inside, rfl⟩ := List.exists_cons_of_ne_nil nonempty
  have snippet (size : Nat) : Text.slice html start (start + size) = (c :: inside).take size := by
    rw [Text.slice, List.drop_take, stands, Nat.add_sub_cancel_left]
  have behind : html.drop (start + 1) = inside := Text.drop_succ_of_cons stands
  rw [readConditional, Guarded.check_ok (charAt_of_drop stands), pure_bind, snippet 40, snippet 80]
  by_cases brace : c = '\x7b'
  · subst brace
    rw [if_pos rfl, Guarded.check_ok (conditionEnd_eq html (start + 1)), pure_bind, behind, stands, Conditional.read]
    cases found : splitCondition? {} inside with
    | none => exact .inl ⟨_, rfl, rfl⟩
    | some parts =>
      obtain ⟨condition, mark, afterMark⟩ := parts
      have place := behind.trans (Conditional.eq_of_splitCondition? found)
      have afterQuestion : html.drop (start + 1 + condition.length + 1) = afterMark := Text.drop_succ_of_drop place
      rw [Option.map_some]
      dsimp only
      by_cases ends : mark = '\x7d'
      · have sliced := @Text.slice_of_drop html ('\x7b' :: condition ++ [mark]) afterMark start
          (by rw [stands, ← behind, place, List.append_assoc]; rfl)
        rw [if_pos ends, if_pos ends, ← sliced, List.length_append, List.length_cons, List.length_singleton,
          Nat.add_right_comm start 1, ← Nat.add_assoc, ← Nat.add_assoc]
        exact .inl ⟨_, rfl, rfl⟩
      rw [if_neg ends, if_neg ends]
      generalize List.take 80 ('\x7b' :: inside) = snippet
      -- Each reader goes on where the one before it ended.
      cases first : afterJoint .openTruthy snippet afterMark with
      | error failure => exact .inl ⟨failure, rfl, by rw [jointIndex_of_error (by rw [afterQuestion]; exact first)]; rfl⟩
      | ok opened =>
      obtain ⟨truthyStart, truthyPlace, reached⟩ := @jointIndex_of_ok .openTruthy snippet html opened _
        (by rw [afterQuestion]; exact first)
      rw [reached, pure_bind, ok_bind]
      cases second : readBranch true snippet opened with
      | error failure => exact .inl ⟨failure, rfl, by rw [branchEnd_of_error truthyPlace second]; rfl⟩
      | ok branch =>
      obtain ⟨truthyEnded, truthy, afterTruthy⟩ := branchEnd_of_ok truthyPlace second
      rw [truthyEnded, pure_bind, truthy, ok_bind]
      cases third : afterJoint .colon snippet branch.2 with
      | error failure => exact .inl ⟨failure, rfl, by rw [jointIndex_of_error (by rw [afterTruthy]; exact third)]; rfl⟩
      | ok afterColon =>
      obtain ⟨colon, colonPlace, reachedColon⟩ := @jointIndex_of_ok .colon snippet html afterColon _
        (by rw [afterTruthy]; exact third)
      have behindColon : html.drop (colon + 1) = afterColon := Text.drop_succ_of_cons colonPlace
      rw [reachedColon, pure_bind, ok_bind]
      cases fourth : afterJoint .openFalsy snippet afterColon with
      | error failure => exact .inl ⟨failure, rfl, by rw [jointIndex_of_error (by rw [behindColon]; exact fourth)]; rfl⟩
      | ok openedAgain =>
      obtain ⟨falsyStart, falsyPlace, reachedFalsy⟩ := @jointIndex_of_ok .openFalsy snippet html openedAgain _
        (by rw [behindColon]; exact fourth)
      rw [reachedFalsy, pure_bind, ok_bind]
      cases fifth : readBranch false snippet openedAgain with
      | error failure => exact .inl ⟨failure, rfl, by rw [branchEnd_of_error falsyPlace fifth]; rfl⟩
      | ok other =>
      obtain ⟨falsyEnded, falsy, afterFalsy⟩ := branchEnd_of_ok falsyPlace fifth
      rw [falsyEnded, pure_bind, falsy, ok_bind]
      cases sixth : afterJoint .closing snippet other.2 with
      | error failure => exact .inl ⟨failure, rfl, by rw [jointIndex_of_error (by rw [afterFalsy]; exact sixth)]; rfl⟩
      | ok rest =>
      obtain ⟨closing, closingPlace, reachedClosing⟩ := @jointIndex_of_ok .closing snippet html rest _
        (by rw [afterFalsy]; exact sixth)
      have behindClosing : html.drop (closing + 1) = rest := Text.drop_succ_of_cons closingPlace
      rw [reachedClosing, pure_bind, Text.slice_of_drop place]
      exact .inr ⟨_, rest, closing + 1, rfl, behindClosing, rfl⟩
  · rw [if_neg brace]
    unfold Conditional.read
    split
    · next same => cases same; exact absurd rfl brace
    · exact .inl ⟨_, rfl, rfl⟩

theorem choose_eq (conditional : Conditional) (scope : Scope) : choose conditional scope = embed (conditional.choose scope) := by
  rw [choose, Conditional.choose, evaluate_eq, Guarded.embed_bind]
  refine bind_congr fun value => ?_
  cases value with
  | string text => rfl
  | int number => rfl
  | boolean truth => cases truth <;> rfl

theorem nonempty_of_seekFrom? {blocks : List Span} {offset : Nat} {text before found : Text}
    (sought : seekFrom? blocks offset text = some (before, found)) : found ≠ [] := by
  induction text generalizing offset before with
  | nil => cases sought
  | cons c rest ih =>
    rw [seekFrom?] at sought
    split at sought
    · cases sought
      exact List.cons_ne_nil c rest
    · obtain ⟨parts, later, same⟩ := Option.map_eq_some_iff.1 sought
      cases same
      exact ih later

theorem length_settle_le {html settled : Text} {scope : Scope} (result : Conditional.settle html scope = .ok settled) :
    settled.length ≤ html.length := by
  rw [Conditional.settle] at result
  cases reduced : Conditional.reduce html scope with
  | error failure =>
    rw [reduced] at result
    cases result
  | ok reduction =>
    rw [reduced] at result
    cases result
    exact reduction.property

theorem settle_eq (html : Text) (scope : Scope) : settle html scope = embed (Conditional.settle html scope) := by
  rw [settle, Guarded.check_ok (conditionalStart_eq html), pure_bind, Conditional.start?]
  cases sought : Conditional.seek? html with
  | none =>
    rw [Conditional.settle_of_none sought]
    rfl
  | some parts =>
    obtain ⟨before, found⟩ := parts
    have whole := Conditional.eq_of_seekFrom? sought
    have stands : html.drop before.length = found := by rw [whole, List.drop_left]
    rw [Option.map_some]
    dsimp only
    rcases readConditional_cases stands (nonempty_of_seekFrom? sought) with
      ⟨failure, reads, fails⟩ | ⟨conditional, rest, stop, reads, follows, ends⟩
    · rw [fails, Conditional.settle_of_some sought, reads]
      rfl
    have size := Conditional.length_of_read reads
    have sizes := congrArg List.length whole
    rw [List.length_append] at sizes
    have front : html.take before.length = before := by rw [whole, List.take_left]
    rw [ends, pure_bind, Conditional.settle_of_some sought, reads, ok_bind, choose_eq, follows, front]
    dsimp only
    cases chosen : conditional.choose scope with
    | error failure => rfl
    | ok branch =>
      have branchSize := Conditional.length_of_choose chosen
      have branchShorter : branch.length < html.length := by omega
      rw [Guarded.embed_ok, pure_bind, ok_bind, dif_pos branchShorter, settle_eq branch scope]
      cases settled : Conditional.settle branch scope with
      | error failure => rfl
      | ok replacement =>
        have shorter := length_settle_le settled
        have settledShorter : (before ++ replacement ++ rest).length < html.length := by
          simp only [List.length_append]
          omega
        rw [Guarded.embed_ok, pure_bind, ok_bind, dif_pos settledShorter]
        exact settle_eq (before ++ replacement ++ rest) scope
termination_by html.length
decreasing_by
  · exact branchShorter
  · exact settledShorter

end Checked

end ComponentPages
