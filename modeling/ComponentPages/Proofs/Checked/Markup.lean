import ComponentPages.Proofs.Checked.Basic
import ComponentPages.Proofs.Markup.Inside

/-!
Tags, read with checked operations: where a tag ends, whether an offset lies inside of a tag, which closing tag matches
an open one, and the first component tag from an offset on. Offsets that are computed from matches and from other
offsets are used as indices here; each lemma says that they are good ones.
-/
namespace ComponentPages

theorem TagHead.stop?_eq_none {html : Text} {start : Nat} (unread : read? (html.drop start) = none) :
    stop? html start = none := by
  rw [stop?, unread, Option.map_none]

theorem TagHead.stop?_eq_some {html head body : Text} {start : Nat} (found : read? (html.drop start) = some (head, body)) :
    stop? html start = some (start + head.length) := by
  rw [stop?, found, Option.map_some]

namespace Checked

open Guarded (embed check)

/-- One character of a tag's head, given the quotation and the number of braces it stands in. -/
def tagTurn (state : Option Char × Nat) (index : Nat) (c : Char) : Turn (Option Char × Nat) (Option Nat) :=
  match state with
  | (some quote, braces) => .next (if c = quote then none else some quote, braces)
  | (none, braces) =>
    if isQuote c then .next (some c, braces)
    else if c = '\x7b' then .next (none, braces + 1)
    else if c = '\x7d' then .next (none, braces - 1)
    else if c = '>' ∧ braces = 0 then .stop (some index)
    else .next (none, braces)

/-- The offset of the `>` that ends a tag whose head starts at an offset. -/
def tagEnd (html : Text) (start : Nat) : Checked (Option Nat) := each html tagTurn (fun _ _ => none) (none, 0) start

/-- One character before an offset that may lie in an open tag. -/
def insideTurn (accepts : Char → Bool) (html : Text) (_ : Unit) (index : Nat) (c : Char) : Checked (Turn Unit Bool) :=
  if c = '>' then .ok (.stop false)
  else if c = '<' then
    if index + 1 < html.length then (charAt html (index + 1)).map fun following => .stop (accepts following)
    else .ok (.stop false)
  else .ok (.next ())

/-- Whether an offset lies in an open tag whose first character is accepted. -/
def insideTag (accepts : Char → Bool) (html : Text) (offset : Nat) : Checked Bool :=
  backward html (insideTurn accepts html) (fun _ => false) () offset

/-- A round of the search for a closing tag: the tag of the given name that an offset has, if any. -/
def closeTurn (html : Text) (blocks : List Span) (name : Text) (depth index : Nat) :
    Checked (Turn (Nat × Nat) (Option Span)) :=
  match if covered blocks index then none else Tag.named? name (html.drop index) with
  | none => .ok (.next (depth, index + 1))
  | some (true, after) =>
    match Text.cut? '>' after with
    | none => .ok (.stop none)
    | some (inside, _) =>
      if depth ≤ 1 then .ok (.stop (some ⟨index, index + name.length + inside.length + 3⟩))
      else .ok (.next (depth - 1, index + 1))
  | some (false, _) => do
    let start := index + 1 + name.length
    match ← tagEnd html start with
    | none => .ok (.stop none)
    | some stop =>
      if TagHead.closesItself (Text.slice html start stop) then .ok (.next (depth, index + 1))
      else .ok (.next (depth + 1, index + 1))

/-- The closing tag that matches an open tag ending before an offset. -/
def matchingClose (html name : Text) (start : Nat) : Checked (Option Span) :=
  loop html (closeTurn html (Block.spans html) name) (fun _ _ => none) 1 start

/-- Whether a tag's name ends at an offset. -/
def endsName (html : Text) (offset : Nat) : Checked Bool :=
  if offset < html.length then (charAt html offset).map fun c => (" \t\r\n/>" : Text).elem c else .ok true

/-- A round of the search for a component tag. -/
def markTurn (html : Text) (blocks : List Span) (_ : Unit) (index : Nat) :
    Checked (Turn (Unit × Nat) (Option ComponentTag.Mark)) :=
  match if covered blocks index then none else ComponentTag.mark? index (html.drop index) with
  | none => .ok (.next ((), index + 1))
  | some mark =>
    if mark.closing then .ok (.next ((), index + 1))
    else do
      if ← endsName html (index + 1 + mark.name.length) then .ok (.stop (some mark)) else .ok (.next ((), index + 1))

/-- The first place at or after an offset where a component tag begins. -/
def nextMark (html : Text) (start : Nat) : Checked (Option ComponentTag.Mark) :=
  loop html (markTurn html (Block.spans html)) (fun _ _ => none) () start

/-- The component tag that begins at a place. -/
def tagOfMark (html : Text) (mark : ComponentTag.Mark) : Guarded (Except Failure) ComponentTag := do
  let headStart := mark.offset + 1 + mark.name.length
  match ← check (tagEnd html headStart) with
  | none => embed (.error (.unclosedTag mark.name ((html.drop mark.offset).take 80)))
  | some stop =>
    let head := Text.slice html headStart stop
    if TagHead.closesItself head then
      pure ⟨mark.offset, stop + 1, mark.name, true, Text.trim (Text.trimRight head).dropLast, []⟩
    else
      match ← check (matchingClose html mark.name (stop + 1)) with
      | none => embed (.error (.unclosedComponent mark.name))
      | some close =>
        pure ⟨mark.offset, close.stop, mark.name, false, Text.trim head, Text.slice html (stop + 1) close.start⟩

/-- The first component tag at or after an offset. -/
def nextTag (html : Text) (start : Nat) : Guarded (Except Failure) (Option ComponentTag) := do
  match ← check (nextMark html start) with
  | none => pure none
  | some mark => some <$> tagOfMark html mark

theorem tagEnd_eq (html : Text) (start : Nat) : tagEnd html start = .ok (TagHead.stop? html start) := by
  refine each_eq (fun state index rest => (TagHead.split? state.1 state.2 rest).map fun found => index + found.1.length)
    (fun state index => rfl) (fun state index c rest _ => ?_) (none, 0) start
  have later (quote : Option Char) (braces : Nat) :
      ((TagHead.split? quote braces rest).map fun found => (c :: found.1, found.2)).map
        (fun found => index + found.1.length) =
      (TagHead.split? quote braces rest).map fun found => index + 1 + found.1.length := place_cons index c _
  obtain ⟨quote, braces⟩ := state
  cases quote with
  | some quote => exact later _ braces
  | none =>
    rw [TagHead.split?, tagTurn]
    by_cases ends : c = '>' ∧ braces = 0
    · obtain ⟨rfl, rfl⟩ := ends
      rfl
    · dsimp only
      rw [if_neg ends, if_neg ends, later]
      by_cases quoted : isQuote c
      · have plain : c ≠ '\x7b' ∧ c ≠ '\x7d' := by
          constructor <;> rintro rfl <;> revert quoted <;> decide
        rw [if_pos quoted, if_pos quoted, if_neg plain.1, if_neg plain.2, Turn.result]
      · rw [if_neg quoted, if_neg quoted]
        by_cases opens : c = '\x7b'
        · rw [if_pos opens, if_pos opens, Turn.result]
        · rw [if_neg opens, if_neg opens]
          by_cases closes : c = '\x7d'
          · rw [if_pos closes, if_pos closes, Turn.result]
          · rw [if_neg closes, if_neg closes, Turn.result]

theorem tagEnd_of_read {html head body : Text} {start : Nat} (found : TagHead.read? (html.drop start) = some (head, body)) :
    tagEnd html start = .ok (some (start + head.length)) := by
  rw [tagEnd_eq, TagHead.stop?_eq_some found]

theorem tagEnd_of_unread {html : Text} {start : Nat} (unread : TagHead.read? (html.drop start) = none) :
    tagEnd html start = .ok none := by
  rw [tagEnd_eq, TagHead.stop?_eq_none unread]

theorem insideTag_eq (accepts : Char → Bool) {html : Text} {offset : Nat} (within : offset ≤ html.length) :
    insideTag accepts html offset = .ok (opensTag accepts html[offset]? (html.take offset).reverse) := by
  have sizes (index : Nat) (inside : index ≤ html.length) : (html.take index).reverse.length = index := by
    rw [List.length_reverse, List.length_take]
    omega
  have whole : insideTag accepts html offset = .ok (opensTag accepts html[(html.take offset).reverse.length]?
      (html.take offset).reverse) := by
    refine backward_eq (fun _ backwards => opensTag accepts html[backwards.length]? backwards) (fun _ => rfl)
      (fun _ index c here => ?_) () within
    obtain ⟨inside, -⟩ := List.getElem?_eq_some_iff.1 here
    rw [List.length_cons, sizes index (Nat.le_of_lt inside), opensTag, here, insideTurn]
    by_cases closes : c = '>'
    · exact ⟨.stop false, if_pos closes, if_pos closes⟩
    · rw [if_neg closes, if_neg closes]
      by_cases opens : c = '<'
      · rw [if_pos opens, if_pos opens]
        by_cases more : index + 1 < html.length
        · have following : html[index + 1]? = some html[index + 1] := List.getElem?_eq_getElem more
          refine ⟨.stop (accepts html[index + 1]), ?_, ?_⟩
          · rw [if_pos more, charAt, following, require, Except.map]
          · rw [following, Option.any_some, Turn.result]
        · refine ⟨.stop false, if_neg more, ?_⟩
          rw [List.getElem?_eq_none (Nat.le_of_not_lt more), Option.any_none, Turn.result]
      · exact ⟨.next (), if_neg opens, by rw [if_neg opens, Turn.result]⟩
  rwa [sizes offset within] at whole

theorem insideTag_component {html : Text} {offset : Nat} (within : offset ≤ html.length) :
    insideTag isUpper html offset = .ok (insideComponentTag html offset) :=
  insideTag_eq isUpper within

theorem matchingClose_eq (html name : Text) (start : Nat) :
    matchingClose html name start = .ok (Tag.close? html name start) := by
  refine loop_eq (fun depth index rest => Tag.closeFrom? (Block.spans html) name depth index rest) (fun _ _ => rfl)
    (fun depth index c rest stands => ?_) 1 start
  have next : html.drop (index + 1) = rest := Text.drop_succ_of_cons stands
  have onward := Nat.lt_succ_self index
  rw [closeTurn, Tag.closeFrom?, stands]
  cases found : (if covered (Block.spans html) index then none else Tag.named? name (c :: rest)) with
  | none => exact .inr ⟨depth, index + 1, rfl, onward, by rw [next]⟩
  | some tag =>
    obtain ⟨closing, after⟩ := tag
    have named : Tag.named? name (c :: rest) = some (closing, after) := by
      split at found
      · cases found
      · exact found
    cases closing with
    | true =>
      dsimp only
      cases Text.cut? '>' after with
      | none => exact .inl rfl
      | some parts =>
        dsimp only
        by_cases outermost : depth ≤ 1
        · exact .inl (by rw [if_pos outermost, if_pos outermost])
        · rw [if_neg outermost, if_neg outermost]
          exact .inr ⟨depth - 1, index + 1, rfl, onward, by rw [next]⟩
    | false =>
      have place : html.drop (index + 1 + name.length) = after := by
        have whole : html.drop index = ('<' :: name) ++ after := stands.trans (Tag.exists_of_named? named).2
        rw [← Text.drop_of_drop whole, List.length_cons]
        congr 1
        omega
      dsimp only
      cases read : TagHead.read? after with
      | none =>
        rw [tagEnd_of_unread (by rw [place]; exact read)]
        exact .inl rfl
      | some parts =>
        obtain ⟨head, body⟩ := parts
        have sliced : Text.slice html (index + 1 + name.length) (index + 1 + name.length + head.length) = head :=
          Text.slice_of_drop (place.trans (TagHead.eq_of_split? read))
        rw [@tagEnd_of_read html head body _ (by rw [place]; exact read), ok_bind]
        dsimp only
        rw [sliced]
        by_cases itself : TagHead.closesItself head
        · rw [if_pos itself, if_pos itself]
          exact .inr ⟨depth, index + 1, rfl, onward, by rw [next]⟩
        · rw [if_neg itself, if_neg itself]
          exact .inr ⟨depth + 1, index + 1, rfl, onward, by rw [next]⟩

theorem endsName_eq (html : Text) (offset : Nat) :
    endsName html offset = .ok ((html.drop offset).head?.all fun c => (" \t\r\n/>" : Text).elem c) := by
  rw [endsName, List.head?_drop]
  split
  · next inside =>
    rw [charAt, List.getElem?_eq_getElem inside, require, map_ok, Option.all_some]
  · next outside => rw [List.getElem?_eq_none (Nat.le_of_not_lt outside), Option.all_none]

theorem nextMark_eq (html : Text) (start : Nat) :
    nextMark html start = .ok ((ComponentTag.marks html start).dropWhile ComponentTag.Mark.closing).head? := by
  refine loop_eq (fun _ index rest => ((ComponentTag.marksFrom (Block.spans html) index rest).dropWhile
    ComponentTag.Mark.closing).head?) (fun _ _ => rfl) (fun _ index c rest stands => ?_) () start
  have next : html.drop (index + 1) = rest := Text.drop_succ_of_cons stands
  have passed : ∃ next' later, (.ok (.next ((), index + 1)) : Checked (Turn (Unit × Nat) (Option ComponentTag.Mark))) =
      .ok (.next (next', later)) ∧ index < later ∧ ((ComponentTag.marksFrom (Block.spans html) later
        (html.drop later)).dropWhile ComponentTag.Mark.closing).head? =
      ((ComponentTag.marksFrom (Block.spans html) (index + 1) rest).dropWhile ComponentTag.Mark.closing).head? :=
    ⟨(), index + 1, rfl, Nat.lt_succ_self index, by rw [next]⟩
  rw [markTurn, ComponentTag.marksFrom, stands]
  by_cases covering : covered (Block.spans html) index
  · rw [if_pos covering, if_pos covering]
    exact .inr passed
  · rw [if_neg covering, if_neg covering]
    cases read : ComponentTag.mark? index (c :: rest) with
    | none => exact .inr passed
    | some mark =>
      dsimp only
      by_cases closing : mark.closing
      · have counts : mark.counts = true := by rw [ComponentTag.Mark.counts, closing, Bool.true_or]
        rw [if_pos closing, Option.filter_some, if_pos counts, List.dropWhile_cons_of_pos closing]
        exact .inr passed
      · have opening := Bool.eq_false_iff.2 closing
        have place : html.drop (index + 1 + mark.name.length) = mark.after := by
          have whole : html.drop index = ('<' :: mark.name) ++ mark.after :=
            stands.trans (ComponentTag.eq_of_mark? read opening).1
          rw [← Text.drop_of_drop whole, List.length_cons]
          congr 1
          omega
        have counts : mark.counts = mark.after.head?.all fun c => (" \t\r\n/>" : Text).elem c := by
          rw [ComponentTag.Mark.counts, opening, Bool.false_or]
        rw [if_neg closing, endsName_eq, place, ok_bind, ← counts, Option.filter_some]
        by_cases boundary : mark.counts
        · rw [if_pos boundary, if_pos boundary]
          exact .inl (by rw [List.dropWhile_cons_of_neg closing, List.head?_cons])
        · rw [if_neg boundary, if_neg boundary]
          exact .inr passed

/-- What follows the name of the first tag that counts. -/
theorem drop_of_nextMark {html : Text} {start : Nat} {mark : ComponentTag.Mark}
    (first : ((ComponentTag.marks html start).dropWhile ComponentTag.Mark.closing).head? = some mark) :
    html.drop (mark.offset + 1 + mark.name.length) = mark.after := by
  have member : mark ∈ (ComponentTag.marks html start).dropWhile ComponentTag.Mark.closing := List.mem_of_mem_head? first
  obtain ⟨others, dropped⟩ := List.head?_eq_some_iff.1 first
  have opening : mark.closing = false := stop_of_dropWhile dropped
  have inMarks : mark ∈ ComponentTag.marksFrom (Block.spans html) start (html.drop start) :=
    (List.dropWhile_suffix ComponentTag.Mark.closing).subset member
  have place := (ComponentTag.bounds_of_mem_marksFrom inMarks).1
  have whole : html.drop mark.offset = ('<' :: mark.name) ++ mark.after := by
    rw [← (ComponentTag.eq_of_mem_marksFrom inMarks opening).1, List.drop_drop]
    congr 1
    omega
  rw [← Text.drop_of_drop whole, List.length_cons]
  congr 1
  omega

theorem tagOfMark_eq {html : Text} {mark : ComponentTag.Mark}
    (stands : html.drop (mark.offset + 1 + mark.name.length) = mark.after) :
    tagOfMark html mark = embed (ComponentTag.ofMark html mark) := by
  rw [tagOfMark, ComponentTag.ofMark]
  dsimp only
  cases read : TagHead.read? mark.after with
  | none =>
    rw [Guarded.check_ok (tagEnd_of_unread (by rw [stands]; exact read)), pure_bind]
  | some parts =>
    obtain ⟨head, body⟩ := parts
    have place : html.drop (mark.offset + 1 + mark.name.length) = head ++ '>' :: body :=
      stands.trans (TagHead.eq_of_split? read)
    have bodyPlace := Text.drop_succ_of_drop place
    rw [Guarded.check_ok (tagEnd_of_read (by rw [stands]; exact read)), pure_bind]
    dsimp only
    rw [Text.slice_of_drop place, Guarded.check_ok (matchingClose_eq _ _ _), pure_bind, Tag.close?, bodyPlace]
    by_cases itself : TagHead.closesItself head
    · rw [if_pos itself, if_pos itself]
      rfl
    · rw [if_neg itself, if_neg itself]
      cases Tag.closeFrom? (Block.spans html) mark.name 1 (mark.offset + 1 + mark.name.length + head.length + 1) body with
      | none => rfl
      | some close =>
        dsimp only
        rw [Text.slice, List.drop_take, bodyPlace]
        rfl

theorem nextTag_eq (html : Text) (start : Nat) : nextTag html start = embed (ComponentTag.next? html start) := by
  rw [nextTag, Guarded.check_ok (nextMark_eq html start), pure_bind, ComponentTag.next?]
  cases found : (ComponentTag.marks html start).dropWhile ComponentTag.Mark.closing with
  | nil => rfl
  | cons mark others =>
    have stands := drop_of_nextMark (by rw [found, List.head?_cons])
    dsimp only [List.head?_cons]
    rw [tagOfMark_eq stands]
    exact (Guarded.embed_map some (ComponentTag.ofMark html mark)).symm

end Checked

end ComponentPages
