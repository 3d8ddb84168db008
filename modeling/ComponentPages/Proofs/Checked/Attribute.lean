import ComponentPages.Proofs.Checked.Markup
import ComponentPages.Proofs.Markup.Head

/-!
Attributes of a tag's head, read with checked operations. A cursor moves through the head: past white space, past a
name, past an equals sign and past a value that may never end. It may come to stand behind the end of the head, where it
must not be used as an index any more.
-/
namespace ComponentPages

namespace Text

/-- Where a character stands first, from an index on. -/
def indexFrom (c : Char) (text : Text) (start : Nat) : Option Nat :=
  (cut? c (text.drop start)).map fun parts => start + parts.1.length

/-- Where a run of characters of a class ends that starts at an index. -/
def runEnd (class_ : Char → Bool) (text : Text) (start : Nat) : Nat := start + ((text.drop start).takeWhile class_).length

theorem drop_runEnd (class_ : Char → Bool) (text : Text) (start : Nat) :
    text.drop (runEnd class_ text start) = (text.drop start).dropWhile class_ := by
  have whole := List.takeWhile_append_dropWhile (p := class_) (l := text.drop start)
  exact drop_of_drop whole.symm

theorem drop_blankEnd (text : Text) (start : Nat) : text.drop (runEnd isBlank text start) = trimLeft (text.drop start) :=
  drop_runEnd isBlank text start

theorem slice_runEnd (class_ : Char → Bool) (text : Text) (start : Nat) :
    slice text start (runEnd class_ text start) = (text.drop start).takeWhile class_ := by
  have whole := List.takeWhile_append_dropWhile (p := class_) (l := text.drop start)
  exact slice_of_drop whole.symm

theorem le_runEnd (class_ : Char → Bool) (text : Text) (start : Nat) : start ≤ runEnd class_ text start := by
  rw [runEnd]
  omega

/-- What a cut leaves of the rest of a text. -/
theorem indexFrom_eq_some {c : Char} {text before after : Text} {start : Nat}
    (found : cut? c (text.drop start) = some (before, after)) : indexFrom c text start = some (start + before.length) := by
  rw [indexFrom, found, Option.map_some]

theorem indexFrom_eq_none {c : Char} {text : Text} {start : Nat} (absent : cut? c (text.drop start) = none) :
    indexFrom c text start = none := by
  rw [indexFrom, absent, Option.map_none]

/-- A slice that may end behind the text, given what follows its end. -/
theorem slice_of_rest {text whole rest : Text} {start stop : Nat} (stands : text.drop start = whole)
    (follows : text.drop stop = rest) (onward : start ≤ stop) :
    slice text start stop = whole.take (whole.length - rest.length) := by
  rw [slice, List.drop_take, stands]
  have wholeSize : whole.length = text.length - start := by rw [← stands, List.length_drop]
  have restSize : rest.length = text.length - stop := by rw [← follows, List.length_drop]
  rcases Nat.le_total stop text.length with inside | behind
  · congr 1
    omega
  · rw [List.take_of_length_le (by omega), List.take_of_length_le (by omega)]

end Text

namespace Checked

/-- Where a run of characters of a class ends that starts at an index. -/
def runEnd (class_ : Char → Bool) (text : Text) (start : Nat) : Checked Nat :=
  each text (fun (_ : Unit) index c => if class_ c then .next () else .stop index) (fun _ index => index) () start

/-- Whether a character stands at an index, which may be behind the text. -/
def standsAt (c : Char) (text : Text) (index : Nat) : Checked Bool :=
  if index < text.length then (charAt text index).map fun d => d == c else .ok false

/-- One character on the way to a closing bracket. -/
def bracketTurn (opening closing : Char) (nesting : Nesting) (index : Nat) (c : Char) : Turn Nesting (Option Nat) :=
  match nesting.quote with
  | some quote => .next (if c = quote then { nesting with quote := none } else nesting)
  | none =>
    if isQuote c then .next { nesting with quote := some c }
    else if c = opening then .next { nesting with depth := nesting.depth + 1 }
    else if c = closing then
      if nesting.depth - 1 = 0 then .stop (some index) else .next { nesting with depth := nesting.depth - 1 }
    else .next nesting

/-- The offset of the bracket that closes the one at an offset, past quotations. -/
def matchingBracket (opening closing : Char) (text : Text) (start : Nat) : Checked (Option Nat) :=
  each text (bracketTurn opening closing) (fun _ _ => none) {} start

/-- The value between an opening character and the closing one, or up to the end, and the index behind it. -/
def valueUpTo (quoting : Quoting) (text : Text) (start : Nat) (close? : Option Nat) : (Quoting × Text) × Nat :=
  ((quoting, Text.slice text (start + 1) (close?.getD text.length)), close?.getD text.length + 1)

/-- The value that starts at an index, and the index behind it. -/
def valueAt (text : Text) (start : Nat) : Checked ((Quoting × Text) × Nat) := do
  let opener ← charAt text start
  if opener = '\x7b' then
    let close ← matchingBracket '\x7b' '\x7d' text start
    .ok (valueUpTo .braces text start close)
  else if isQuote opener then .ok (valueUpTo (.quoted opener) text start (Text.indexFrom opener text (start + 1)))
  else
    let stop ← runEnd (!isBlank ·) text start
    .ok ((.unquoted, Text.slice text start stop), stop)

/-- One attribute from an index on, or a character that can start none. -/
def attributeTurn (text : Text) (found : List Attribute) (index : Nat) :
    Checked (Turn (List Attribute × Nat) (List Attribute)) := do
  let start ← runEnd isBlank text index
  if text.length ≤ start then .ok (.stop found)
  else
    let stop ← runEnd Attribute.isNamePart text start
    let name := Text.slice text start stop
    if name = [] then .ok (.next (found, stop + 1))
    else
      let cursor ← runEnd isBlank text stop
      if ← standsAt '=' text cursor then
        let valueStart ← runEnd isBlank text (cursor + 1)
        if text.length ≤ valueStart then .ok (.next (found, valueStart))
        else
          let (value, next) ← valueAt text valueStart
          .ok (.next (found ++ [⟨name, some value, Text.slice text start next⟩], next))
      else .ok (.next (found ++ [⟨name, none, name⟩], stop))

/-- The attributes of a head. -/
def attributes (head : Text) : Checked (List Attribute) := loop head (attributeTurn head) (fun found _ => found) [] 0

theorem runEnd_eq (class_ : Char → Bool) (text : Text) (start : Nat) :
    runEnd class_ text start = .ok (Text.runEnd class_ text start) := by
  refine each_eq (fun _ index rest => index + (rest.takeWhile class_).length) (fun _ _ => rfl) (fun _ index c rest _ => ?_) ()
    start
  by_cases inClass : class_ c
  · rw [if_pos inClass, List.takeWhile_cons_of_pos inClass, List.length_cons, Turn.result]
    omega
  · rw [if_neg inClass, List.takeWhile_cons_of_neg inClass, Turn.result]
    rfl

theorem standsAt_eq (c : Char) (text : Text) (index : Nat) :
    standsAt c text index = .ok ((text.drop index).head? == some c) := by
  rw [standsAt, List.head?_drop]
  split
  · next inside => rw [charAt, List.getElem?_eq_getElem inside, require, map_ok, Option.some_beq_some]
  · next outside => rw [List.getElem?_eq_none (Nat.le_of_not_lt outside)]; rfl

section Brackets

variable {opening closing : Char} (pair : isQuote opening = false ∧ isQuote closing = false ∧ closing ≠ opening)
include pair

theorem bracketTurn_result (nesting : Nesting) (index : Nat) (c : Char) (rest : Text) :
    ((Nesting.close? opening closing nesting (c :: rest)).map fun found => index + found.1.length) =
      (bracketTurn opening closing nesting index c).result fun next =>
        (Nesting.close? opening closing next rest).map fun found => index + 1 + found.1.length := by
  have later (next : Nesting) :
      ((Nesting.close? opening closing next rest).map fun found => (c :: found.1, found.2)).map
        (fun found => index + found.1.length) =
      (Nesting.close? opening closing next rest).map fun found => index + 1 + found.1.length := place_cons index c _
  obtain ⟨quote, depth⟩ := nesting
  rw [Nesting.close?, bracketTurn, Nesting.step]
  cases quote with
  | some quote =>
    rw [if_neg (by rintro ⟨-, same⟩; cases same), later]
    rfl
  | none =>
    dsimp only
    by_cases quoted : isQuote c
    · have other : c ≠ closing := by
        rintro rfl
        rw [pair.2.1] at quoted
        cases quoted
      rw [if_neg (fun both => other both.1), later, if_pos quoted, if_pos quoted, Turn.result]
    · rw [if_neg quoted, if_neg quoted]
      by_cases opens : c = opening
      · have other : c ≠ closing := fun same => pair.2.2 (same.symm.trans opens)
        rw [if_neg (fun both => other both.1), later, if_pos opens, if_pos opens, Turn.result]
      · rw [if_neg opens, if_neg opens]
        by_cases closes : c = closing
        · rw [if_pos closes, if_pos closes]
          by_cases outermost : depth = 1
          · subst outermost
            rw [if_pos ⟨closes, rfl⟩]
            rfl
          · rw [if_neg (by rintro ⟨-, same⟩; cases same; exact outermost rfl), later, if_neg (by omega), Turn.result]
        · rw [if_neg (fun both => closes both.1), later, if_neg closes, if_neg closes, Turn.result]

theorem matchingBracket_eq {text rest : Text} {start : Nat} (stands : text.drop start = opening :: rest) :
    matchingBracket opening closing text start =
      .ok ((Nesting.close? opening closing ⟨none, 1⟩ rest).map fun found => start + 1 + found.1.length) := by
  have whole : matchingBracket opening closing text start =
      .ok ((Nesting.close? opening closing {} (text.drop start)).map fun found => start + found.1.length) :=
    each_eq (fun nesting index rest => (Nesting.close? opening closing nesting rest).map
      fun (found : Text × Text) => index + found.1.length) (fun _ _ => rfl)
      (fun nesting index c rest _ => bracketTurn_result pair nesting index c rest) {} start
  rw [whole, stands, bracketTurn_result pair, bracketTurn]
  dsimp only
  rw [pair.1, if_neg Bool.false_ne_true, if_pos rfl, Turn.result]
  rfl

end Brackets

theorem valueUpTo_none {text rest : Text} {start : Nat} (behind : text.drop (start + 1) = rest) (quoting : Quoting) :
    valueUpTo quoting text start none = ((quoting, rest), text.length + 1) := by
  rw [valueUpTo, Option.getD_none, Text.slice, List.take_length, behind]

theorem valueUpTo_some {text inside after : Text} {start : Nat} {c : Char}
    (behind : text.drop (start + 1) = inside ++ c :: after) (quoting : Quoting) :
    valueUpTo quoting text start (some (start + 1 + inside.length)) =
      ((quoting, inside), start + 1 + inside.length + 1) := by
  rw [valueUpTo, Option.getD_some, Text.slice_of_drop behind]

/-- The index behind a value is a greater one, and what stands there is what reading the value leaves. -/
theorem valueAt_eq {text rest : Text} {start : Nat} {first : Char} (stands : text.drop start = first :: rest)
    (solid : isBlank first = false) :
    ∃ next, valueAt text start = .ok ((Attribute.readValue first rest).1, next) ∧ start < next ∧
      text.drop next = (Attribute.readValue first rest).2 := by
  have behind : text.drop (start + 1) = rest := Text.drop_succ_of_cons stands
  have ending : text.drop (text.length + 1) = [] := List.drop_eq_nil_of_le (Nat.le_succ _)
  have inside : start < text.length := by
    have size := congrArg List.length stands
    rw [List.length_drop, List.length_cons] at size
    omega
  rw [valueAt, charAt_of_drop stands, ok_bind, Attribute.readValue]
  by_cases brace : first = '\x7b'
  · subst brace
    rw [if_pos rfl, if_pos rfl, matchingBracket_eq (by decide) stands, ok_bind]
    cases closed : Nesting.close? '\x7b' '\x7d' ⟨none, 1⟩ rest with
    | none => exact ⟨text.length + 1, by rw [Option.map_none, valueUpTo_none behind], by omega, ending⟩
    | some parts =>
      have place := behind.trans (Nesting.eq_of_close? closed)
      exact ⟨start + 1 + parts.1.length + 1, by rw [Option.map_some, valueUpTo_some place], by omega,
        Text.drop_succ_of_drop place⟩
  · rw [if_neg brace, if_neg brace]
    by_cases quoted : isQuote first
    · rw [if_pos quoted, if_pos quoted]
      cases found : Text.cut? first rest with
      | none =>
        rw [Text.indexFrom_eq_none (by rw [behind]; exact found), valueUpTo_none behind]
        exact ⟨text.length + 1, rfl, by omega, ending⟩
      | some parts =>
        obtain ⟨before, after⟩ := parts
        have place := behind.trans (Text.eq_of_cut? found)
        rw [@Text.indexFrom_eq_some first text before after _ (by rw [behind]; exact found), valueUpTo_some place]
        exact ⟨start + 1 + before.length + 1, rfl, by omega, Text.drop_succ_of_drop place⟩
    · rw [if_neg quoted, if_neg quoted, runEnd_eq, ok_bind, Text.slice_runEnd]
      have taken := @List.takeWhile_cons_of_pos Char (!isBlank ·) first rest (by simp [solid])
      have left := @List.dropWhile_cons_of_pos Char (!isBlank ·) first rest (by simp [solid])
      refine ⟨Text.runEnd (!isBlank ·) text start, ?_, ?_, ?_⟩
      · rw [stands, taken]
      · rw [Text.runEnd, stands, taken, List.length_cons]
        omega
      · rw [Text.drop_runEnd, stands, left]

/-- A round takes what a step takes and goes on where the step goes on. -/
theorem attributeTurn_eq (text : Text) (found : List Attribute) (index : Nat) :
    (Attribute.step (text.drop index) = .finished ∧ attributeTurn text found index = .ok (.stop found)) ∨
      ∃ later, index < later ∧ text.drop later = (Attribute.step (text.drop index)).rest ∧
        attributeTurn text found index = .ok (.next (found ++ (Attribute.step (text.drop index)).taken, later)) := by
  have start := Text.drop_blankEnd text index
  have past := Text.le_runEnd isBlank text index
  rw [attributeTurn, runEnd_eq, ok_bind]
  generalize Text.runEnd isBlank text index = nameStart at start past
  cases trimmed : Text.trimLeft (text.drop index) with
  | nil =>
    rw [trimmed] at start
    rw [if_pos (List.drop_eq_nil_iff.1 start), Attribute.step, trimmed]
    exact .inl ⟨rfl, rfl⟩
  | cons c tail =>
    rw [trimmed] at start
    have inside : ¬text.length ≤ nameStart := fun beyond => by
      rw [List.drop_eq_nil_of_le beyond] at start
      cases start
    have stopped := Text.drop_runEnd Attribute.isNamePart text nameStart
    have name := Text.slice_runEnd Attribute.isNamePart text nameStart
    have pastName := Text.le_runEnd Attribute.isNamePart text nameStart
    rw [start] at stopped name
    rw [if_neg inside, runEnd_eq, ok_bind]
    generalize nameStop : Text.runEnd Attribute.isNamePart text nameStart = stop at stopped name pastName
    dsimp only
    rw [name]
    by_cases named : Attribute.isNamePart c
    · rw [List.dropWhile_cons_of_pos named] at stopped
      have onward : nameStart < stop := by
        rw [← nameStop, Text.runEnd, start, List.takeWhile_cons_of_pos named, List.length_cons]
        omega
      have cursorPast := Text.le_runEnd isBlank text stop
      have atCursor := Text.drop_blankEnd text stop
      rw [stopped] at atCursor
      rw [List.takeWhile_cons_of_pos named, if_neg (List.cons_ne_nil _ _), runEnd_eq, ok_bind, standsAt_eq, atCursor, ok_bind]
      generalize Text.runEnd isBlank text stop = cursor at cursorPast atCursor
      by_cases equals : (Text.trimLeft (tail.dropWhile Attribute.isNamePart)).head? = some '='
      · obtain ⟨afterEquals, whole⟩ := List.head?_eq_some_iff.1 equals
        have behind : text.drop (cursor + 1) = afterEquals := by rw [← List.tail_drop, atCursor, whole, List.tail_cons]
        have valuePast := Text.le_runEnd isBlank text (cursor + 1)
        have atValue := Text.drop_blankEnd text (cursor + 1)
        rw [behind] at atValue
        rw [equals, beq_self_eq_true, if_pos rfl, runEnd_eq, ok_bind]
        generalize Text.runEnd isBlank text (cursor + 1) = valueStart at valuePast atValue
        cases begins : Text.trimLeft afterEquals with
        | nil =>
          rw [begins] at atValue
          rw [if_pos (List.drop_eq_nil_iff.1 atValue), Attribute.step_valueless trimmed named whole begins]
          exact .inr ⟨valueStart, by omega, atValue, by simp [Attribute.Step.taken]⟩
        | cons first rest =>
          rw [begins] at atValue
          have more : ¬text.length ≤ valueStart := fun beyond => by
            rw [List.drop_eq_nil_of_le beyond] at atValue
            cases atValue
          have solid : isBlank first = false := stop_of_dropWhile begins
          obtain ⟨next, valued, later, follows⟩ := valueAt_eq atValue solid
          rw [if_neg more, valued, ok_bind, Attribute.step_valued trimmed named whole begins]
          refine .inr ⟨next, by omega, follows, ?_⟩
          dsimp only
          rw [Text.slice_of_rest start follows (by omega)]
          rfl
      · rw [beq_eq_false_iff_ne.2 equals, if_neg Bool.false_ne_true, Attribute.step_bare trimmed named equals]
        exact .inr ⟨stop, by omega, stopped, rfl⟩
    · rw [List.dropWhile_cons_of_neg named] at stopped
      have skips : Attribute.step (text.drop index) = .skipped tail := by
        rw [Attribute.step, trimmed]
        exact if_neg named
      rw [List.takeWhile_cons_of_neg named, if_pos rfl, skips]
      refine .inr ⟨stop + 1, by omega, ?_, by simp [Attribute.Step.taken]⟩
      rw [Text.drop_succ_of_cons stopped]
      rfl

theorem attributes_eq (head : Text) : attributes head = .ok (Attribute.tokenize head) := by
  have none : Attribute.tokenize [] = [] := by rw [Attribute.tokenize, Attribute.scan_nil]
  have whole : attributes head = .ok ([] ++ Attribute.tokenize (head.drop 0)) := by
    refine loop_eq (fun found _ rest => found ++ Attribute.tokenize rest) (fun found _ => by rw [none, List.append_nil])
      (fun found index c rest stands => ?_) [] 0
    rw [← stands, Attribute.tokenize_eq (head.drop index)]
    rcases attributeTurn_eq head found index with ⟨finished, stops⟩ | ⟨later, onward, follows, passes⟩
    · refine .inl ?_
      rw [stops, finished]
      simp [Attribute.Step.taken, Attribute.Step.rest, none]
    · exact .inr ⟨_, later, passes, onward, by rw [follows, List.append_assoc]⟩
  rwa [List.nil_append, List.drop_zero] at whole

end Checked

end ComponentPages
