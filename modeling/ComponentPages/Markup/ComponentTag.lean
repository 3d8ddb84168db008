import ComponentPages.Failure
import ComponentPages.Markup.Block
import ComponentPages.Markup.TagHead

/-!
Component tags. A component tag is `<` and a name of ASCII letters and digits that starts with a capital; no
markup tree is built, so closing tags are matched by counting tags of the same name.
-/
namespace ComponentPages

namespace Tag

/-- Whether a tag name ends before the given text: white space, `/` or `>` must follow. -/
def nameEnds (text : Text) : Bool := text.head?.any fun c => isBlank c || c == '/' || c == '>'

/-- Reads `<` or `</` and a given name, and tells which it was. -/
def named? (name : Text) (text : Text) : Option (Bool × Text) :=
  let closing := (Text.after? (['<', '/'] ++ name) text).filter nameEnds
  let opening := (Text.after? ('<' :: name) text).filter nameEnds
  (closing.map (true, ·)).or (opening.map (false, ·))

/-- The span of the closing tag that brings the number of open tags of a name to zero. A tag whose `>` is
missing ends the search. -/
def closeFrom? (blocks : List Span) (name : Text) (depth offset : Nat) : Text → Option Span
  | [] => none
  | c :: rest =>
    match if covered blocks offset then none else named? name (c :: rest) with
    | none => closeFrom? blocks name depth (offset + 1) rest
    | some (true, after) =>
      match Text.cut? '>' after with
      | none => none
      | some (inside, _) =>
        if depth ≤ 1 then some ⟨offset, offset + name.length + inside.length + 3⟩
        else closeFrom? blocks name (depth - 1) (offset + 1) rest
    | some (false, after) =>
      match TagHead.read? after with
      | none => none
      | some (head, _) =>
        if TagHead.closesItself head then closeFrom? blocks name depth (offset + 1) rest
        else closeFrom? blocks name (depth + 1) (offset + 1) rest

theorem length_of_named? {name text after : Text} {closing : Bool}
    (found : named? name text = some (closing, after)) :
    text.length = (if closing then 2 else 1) + name.length + after.length := by
  unfold named? at found
  rcases Option.or_eq_some_iff.1 found with closed | ⟨-, opened⟩
  · obtain ⟨rest, read, same⟩ := Option.map_eq_some_iff.1 closed
    simp only [Prod.mk.injEq] at same
    obtain ⟨rfl, rfl⟩ := same
    have size := Text.length_of_after? (Option.filter_eq_some_iff.1 read).1
    simp only [List.length_append, List.length_cons, List.length_nil] at size
    simp only [if_true]
    omega
  · obtain ⟨rest, read, same⟩ := Option.map_eq_some_iff.1 opened
    simp only [Prod.mk.injEq] at same
    obtain ⟨rfl, rfl⟩ := same
    have size := Text.length_of_after? (Option.filter_eq_some_iff.1 read).1
    simp only [List.length_cons] at size
    simp only [Bool.false_eq_true, if_false]
    omega

/-- A closing tag lies in the text that was searched. -/
theorem bounds_of_closeFrom? {blocks : List Span} {name text : Text} {depth offset : Nat} {span : Span}
    (found : closeFrom? blocks name depth offset text = some span) :
    offset ≤ span.start ∧ span.start < span.stop ∧ span.stop ≤ offset + text.length := by
  induction text generalizing depth offset with
  | nil => simp [closeFrom?] at found
  | cons c rest ih =>
    unfold closeFrom? at found
    simp only [List.length_cons]
    split at found
    · have later := ih found
      omega
    · next after read =>
      have named : named? name (c :: rest) = some (true, after) := by
        split at read
        · simp at read
        · exact read
      have size := length_of_named? named
      split at found
      · simp at found
      · next inside body cut =>
        have cutSize := Text.length_of_cut? cut
        split at found
        · obtain rfl := Option.some.inj found
          simp only [List.length_cons, if_true] at size
          dsimp only
          omega
        · have later := ih found
          omega
    · split at found
      · simp at found
      · split at found
        · have later := ih found
          omega
        · have later := ih found
          omega

/-- The span of the closing tag that matches an open tag ending before an offset. -/
def close? (html name : Text) (offset : Nat) : Option Span :=
  closeFrom? (Block.spans html) name 1 offset (html.drop offset)

end Tag

/-- A component reference in a page: where it stands and what it holds. -/
structure ComponentTag where
  start : Nat
  stop : Nat
  name : Text
  selfClosing : Bool
  attributes : Text
  inner : Text
deriving DecidableEq

namespace ComponentTag

/-- A place where a component tag begins, with what follows its name. -/
structure Mark where
  offset : Nat
  closing : Bool
  name : Text
  after : Text

/-- Reads a component name after `<` or `</`. -/
def named? (offset : Nat) (closing : Bool) : Text → Option Mark
  | [] => none
  | c :: tail =>
    if c.isUpper then
      some ⟨offset, closing, c :: tail.takeWhile Char.isAlphanum, tail.dropWhile Char.isAlphanum⟩
    else none

/-- Reads `<` or `</` and a component name. -/
def mark? (offset : Nat) : Text → Option Mark
  | '<' :: '/' :: rest => named? offset true rest
  | '<' :: rest => named? offset false rest
  | _ => none

/-- An opening mark counts when its name is followed by a space, tab, line break, `/`, `>` or nothing. -/
def Mark.counts (mark : Mark) : Bool :=
  mark.closing || mark.after.head?.all fun c => (" \t\r\n/>" : Text).elem c

/-- The marks outside script and style blocks from an offset on. -/
def marksFrom (blocks : List Span) (offset : Nat) : Text → List Mark
  | [] => []
  | c :: rest =>
    match if covered blocks offset then none else (mark? offset (c :: rest)).filter Mark.counts with
    | some mark => mark :: marksFrom blocks (offset + 1) rest
    | none => marksFrom blocks (offset + 1) rest

def marks (html : Text) (start : Nat) : List Mark :=
  marksFrom (Block.spans html) start (html.drop start)

/-- The component tag that an opening mark begins. -/
def ofMark (html : Text) (mark : Mark) : Except Failure ComponentTag :=
  let headStart := mark.offset + 1 + mark.name.length
  match TagHead.read? mark.after with
  | none => .error (.unclosedTag mark.name ((html.drop mark.offset).take 80))
  | some (head, body) =>
    let bodyStart := headStart + head.length + 1
    if TagHead.closesItself head then
      .ok ⟨mark.offset, bodyStart, mark.name, true, Text.trim (Text.trimRight head).dropLast, []⟩
    else
      match Tag.closeFrom? (Block.spans html) mark.name 1 bodyStart body with
      | none => .error (.unclosedComponent mark.name)
      | some close =>
        .ok ⟨mark.offset, close.stop, mark.name, false, Text.trim head,
          body.take (close.start - bodyStart)⟩

/-- The first component tag at or after an offset. Closing tags that no open tag precedes are passed over. -/
def next? (html : Text) (start : Nat) : Except Failure (Option ComponentTag) :=
  match (marks html start).dropWhile Mark.closing with
  | [] => .ok none
  | mark :: _ => (ofMark html mark).map some

/-- The closing tags that `next?` passes over, with their offsets. -/
def dangling (html : Text) (start : Nat) : List (Text × Nat) :=
  ((marks html start).takeWhile Mark.closing).map fun mark => (mark.name, mark.offset)

theorem length_of_named? {offset : Nat} {closing : Bool} {text : Text} {mark : Mark}
    (found : named? offset closing text = some mark) :
    mark.offset = offset ∧ mark.closing = closing ∧ text.length = mark.name.length + mark.after.length := by
  unfold named? at found
  split at found
  · simp at found
  · next c tail =>
    split at found
    · obtain rfl := Option.some.inj found
      have whole := congrArg List.length (List.takeWhile_append_dropWhile (p := Char.isAlphanum) (l := tail))
      simp only [List.length_append] at whole
      refine ⟨rfl, rfl, ?_⟩
      simp only [List.length_cons]
      omega
    · simp at found

theorem length_of_mark? {offset : Nat} {text : Text} {mark : Mark} (found : mark? offset text = some mark) :
    mark.offset = offset ∧
      text.length = (if mark.closing then 2 else 1) + mark.name.length + mark.after.length := by
  unfold mark? at found
  split at found
  · obtain ⟨place, closing, size⟩ := length_of_named? found
    refine ⟨place, ?_⟩
    simp only [closing, if_true, List.length_cons]
    omega
  · obtain ⟨place, closing, size⟩ := length_of_named? found
    refine ⟨place, ?_⟩
    simp only [closing, Bool.false_eq_true, if_false, List.length_cons]
    omega
  · simp at found

theorem bounds_of_mem_marksFrom {blocks : List Span} {offset : Nat} {text : Text} {mark : Mark}
    (member : mark ∈ marksFrom blocks offset text) :
    offset ≤ mark.offset ∧
      mark.offset + (if mark.closing then 2 else 1) + mark.name.length + mark.after.length =
        offset + text.length := by
  induction text generalizing offset with
  | nil => simp [marksFrom] at member
  | cons c rest ih =>
    unfold marksFrom at member
    split at member
    · next first read =>
      have marked : mark? offset (c :: rest) = some first := by
        split at read
        · simp at read
        · exact (Option.filter_eq_some_iff.1 read).1
      rcases List.mem_cons.1 member with rfl | later
      · have size := length_of_mark? marked
        omega
      · have bound := ih later
        simp only [List.length_cons]
        omega
    · have bound := ih member
      simp only [List.length_cons]
      omega

theorem bounds_of_ofMark {html : Text} {mark : Mark} {tag : ComponentTag}
    (ends : mark.offset + 1 + mark.name.length + mark.after.length = html.length)
    (found : ofMark html mark = .ok tag) :
    tag.start = mark.offset ∧ tag.start < tag.stop ∧ tag.stop ≤ html.length ∧
      tag.inner.length < html.length := by
  unfold ofMark at found
  dsimp only at found
  split at found
  · simp at found
  · next head body read =>
    have size := congrArg List.length (TagHead.eq_of_split? read)
    simp only [List.length_append, List.length_cons] at size
    split at found
    · obtain rfl := Except.ok.inj found
      refine ⟨rfl, ?_⟩
      simp only [List.length_nil]
      omega
    · split at found
      · simp at found
      · next close closed =>
        obtain rfl := Except.ok.inj found
        have bounds := Tag.bounds_of_closeFrom? closed
        refine ⟨rfl, ?_⟩
        simp only [List.length_take]
        omega

/-- The search moves on: a tag it finds starts at or after the given offset and holds less than the text. -/
theorem bounds_of_next? {html : Text} {start : Nat} {tag : ComponentTag} (found : next? html start = .ok (some tag)) :
    start ≤ tag.start ∧ tag.start < tag.stop ∧ tag.stop ≤ html.length ∧ tag.inner.length < html.length := by
  unfold next? at found
  split at found
  · simp at found
  · next mark others first =>
    have kept : mark ∈ (marks html start).dropWhile Mark.closing := by rw [first]; exact List.mem_cons_self
    have member := (List.dropWhile_suffix Mark.closing).subset kept
    have bounds := bounds_of_mem_marksFrom member
    have opening : mark.closing = false := by
      have head := List.head?_dropWhile_not Mark.closing (marks html start)
      rw [first] at head
      simpa using head
    cases made : ofMark html mark with
    | error failure => rw [made] at found; simp [Except.map] at found
    | ok result =>
      rw [made] at found
      simp only [Except.map, Except.ok.injEq, Option.some.injEq] at found
      subst found
      have within : start ≤ html.length := by
        rcases Nat.lt_or_ge html.length start with beyond | inside
        · have empty : html.drop start = [] := List.drop_eq_nil_of_le (Nat.le_of_lt beyond)
          rw [marks, empty] at member
          simp [marksFrom] at member
        · exact inside
      simp only [opening, Bool.false_eq_true, if_false, List.length_drop] at bounds
      have made := bounds_of_ofMark (by omega) made
      omega

end ComponentTag

end ComponentPages
