import ComponentPages.Fetch.Lowering
import ComponentPages.Proofs.Markup.Placeholder

/-!
Two readings of where a tag ends. The search for tags reads forwards and lets quotations and braces hide a `>`;
the guard of the passes reads backwards to the nearest angle bracket, whatever it stands in. Inside a tag the two
part ways exactly behind an angle bracket that does not itself open a tag of the same kind.
-/
namespace ComponentPages

section Brackets

variable {accepts : Char → Bool} {html : Text}

/-- Whether an offset holds a `<` with an accepted character behind it. -/
def opensAt (accepts : Char → Bool) (html : Text) (offset : Nat) : Bool :=
  html[offset]? == some '<' && html[offset + 1]?.any accepts

/-- Whether an offset holds an angle bracket of any other kind. -/
def straysAt (accepts : Char → Bool) (html : Text) (offset : Nat) : Bool :=
  html[offset]?.any isAngle && !opensAt accepts html offset

/-- Behind each stray bracket of a stretch another one opens a tag before the stretch ends. -/
def Reopened (accepts : Char → Bool) (html : Text) (start stop : Nat) : Prop :=
  ∀ stray, start < stray → stray < stop → straysAt accepts html stray = true →
    ∃ opening, stray < opening ∧ opening < stop ∧ opensAt accepts html opening = true

instance (start stop : Nat) : Decidable (Reopened accepts html start stop) :=
  decidable_of_iff
    (∀ stray < stop, start < stray → straysAt accepts html stray = true →
      ∃ opening < stop, stray < opening ∧ opensAt accepts html opening = true)
    ⟨fun reopened stray behind before strays =>
      let ⟨opening, within, after, opens⟩ := reopened stray before behind strays
      ⟨opening, after, within, opens⟩,
    fun reopened stray before behind strays =>
      let ⟨opening, after, within, opens⟩ := reopened stray behind before strays
      ⟨opening, within, after, opens⟩⟩

theorem reopened_of_none {start stop : Nat}
    (none : ∀ offset, start < offset → offset < stop → straysAt accepts html offset = false) :
    Reopened accepts html start stop := by
  intro stray behind before strays
  rw [none stray behind before] at strays
  cases strays

/-- A bracket just before the end of a stretch decides, since nothing can open behind it. -/
theorem reopened_succ_of_angle {start offset : Nat} (behind : start < offset)
    (angle : html[offset]?.any isAngle = true) :
    Reopened accepts html start (offset + 1) ↔ opensAt accepts html offset = true := by
  constructor
  · intro reopened
    by_contra closed
    have strays : straysAt accepts html offset = true := by
      rw [straysAt, angle, Bool.true_and, Bool.not_eq_true', ← Bool.not_eq_true]
      exact closed
    obtain ⟨opening, after, before, -⟩ := reopened offset behind (by omega) strays
    omega
  · intro opens stray _ before strays
    refine ⟨offset, ?_, by omega, opens⟩
    rcases Nat.lt_or_eq_of_le (Nat.le_of_lt_succ before) with earlier | rfl
    · exact earlier
    · rw [straysAt, opens, Bool.not_true, Bool.and_false] at strays
      cases strays

theorem reopened_succ_of_not_angle {start offset : Nat} (plain : html[offset]?.any isAngle = false) :
    Reopened accepts html start (offset + 1) ↔ Reopened accepts html start offset := by
  have notStray : straysAt accepts html offset = false := by rw [straysAt, plain, Bool.false_and]
  have notOpening : opensAt accepts html offset = false := by
    cases opens : opensAt accepts html offset with
    | false => rfl
    | true =>
      rw [opensAt, Bool.and_eq_true, beq_iff_eq] at opens
      rw [opens.1] at plain
      exact absurd plain (by decide)
  have differs {place : Nat} {reads : Nat → Bool} (no : reads offset = false) (yes : reads place = true) :
      place ≠ offset := by
    rintro rfl
    rw [no] at yes
    cases yes
  constructor
  · intro reopened stray behind before strays
    obtain ⟨opening, after, within, opens⟩ := reopened stray behind (by omega) strays
    have other := differs notOpening opens
    exact ⟨opening, after, by omega, opens⟩
  · intro reopened stray behind before strays
    have other := differs notStray strays
    obtain ⟨opening, after, within, opens⟩ := reopened stray behind (by omega) strays
    exact ⟨opening, after, by omega, opens⟩

/-- Moving the end of the search past one character. -/
theorem opensTag_take_succ {offset : Nat} {c : Char} (here : html[offset]? = some c) :
    opensTag accepts html[offset + 1]? (html.take (offset + 1)).reverse =
      if c = '>' then false
      else if c = '<' then html[offset + 1]?.any accepts
      else opensTag accepts html[offset]? (html.take offset).reverse := by
  rw [List.take_add_one, here, Option.toList_some, List.reverse_append, List.reverse_singleton,
    List.singleton_append, opensTag]

/-- Behind the front of a tag, the backward search answers that a tag is open as long as every stray bracket is
followed by one that opens a tag. -/
theorem opensTag_iff_reopened {start stop : Nat} (front : opensAt accepts html start = true) (behind : start < stop)
    (within : stop ≤ html.length) :
    opensTag accepts html[stop]? (html.take stop).reverse = true ↔ Reopened accepts html start stop := by
  induction stop, behind using Nat.le_induction with
  | base =>
    rw [opensAt, Bool.and_eq_true, beq_iff_eq] at front
    rw [opensTag_take_succ front.1, if_neg (by decide), if_pos rfl]
    exact iff_of_true front.2 (reopened_of_none fun offset _ _ => by omega)
  | succ offset behind ih =>
    obtain ⟨c, here⟩ : ∃ c, html[offset]? = some c := ⟨_, List.getElem?_eq_getElem (by omega)⟩
    rw [opensTag_take_succ here]
    by_cases closing : c = '>'
    · subst closing
      have angle : html[offset]?.any isAngle = true := by rw [here]; rfl
      rw [if_pos rfl, reopened_succ_of_angle behind angle, opensAt, here]
      simp
    · by_cases opening : c = '<'
      · subst opening
        have angle : html[offset]?.any isAngle = true := by rw [here]; rfl
        rw [if_neg closing, if_pos rfl, reopened_succ_of_angle behind angle, opensAt, here]
        simp
      · have plain : html[offset]?.any isAngle = false := by
          rw [here]
          simp [isAngle, closing, opening]
        rw [if_neg closing, if_neg opening, reopened_succ_of_not_angle plain]
        exact ih (by omega)

end Brackets

/-- What a tag of a name is read off. -/
theorem Tag.exists_of_named? {name text after : Text} {closing : Bool}
    (found : named? name text = some (closing, after)) :
    nameEnds after = true ∧ text = (if closing then ['<', '/'] else ['<']) ++ name ++ after := by
  rw [named?] at found
  rcases Option.or_eq_some_iff.1 found with closed | ⟨-, opened⟩
  · obtain ⟨rest, read, same⟩ := Option.map_eq_some_iff.1 closed
    obtain ⟨rfl, rfl⟩ := Prod.mk.inj same
    obtain ⟨whole, ends⟩ := Option.filter_eq_some_iff.1 read
    exact ⟨ends, Text.eq_of_after? whole⟩
  · obtain ⟨rest, read, same⟩ := Option.map_eq_some_iff.1 opened
    obtain ⟨rfl, rfl⟩ := Prod.mk.inj same
    obtain ⟨whole, ends⟩ := Option.filter_eq_some_iff.1 read
    exact ⟨ends, Text.eq_of_after? whole⟩

namespace ComponentTag

theorem eq_of_named? {offset : Nat} {closing : Bool} {text : Text} {mark : Mark}
    (found : named? offset closing text = some mark) :
    text = mark.name ++ mark.after ∧ mark.name.head?.any Char.isUpper = true ∧ mark.closing = closing := by
  unfold named? at found
  split at found
  · cases found
  · next c tail =>
    split at found
    · next upper =>
      obtain rfl := Option.some.inj found
      exact ⟨by rw [List.cons_append, List.takeWhile_append_dropWhile], upper, rfl⟩
    · cases found

/-- An opening mark is read off a `<`, a name that starts with a capital and what follows. -/
theorem eq_of_mark? {offset : Nat} {text : Text} {mark : Mark} (found : mark? offset text = some mark)
    (opening : mark.closing = false) :
    text = '<' :: mark.name ++ mark.after ∧ mark.name.head?.any Char.isUpper = true := by
  unfold mark? at found
  split at found
  · obtain ⟨-, -, closing⟩ := eq_of_named? found
    rw [opening] at closing
    cases closing
  · obtain ⟨whole, upper, -⟩ := eq_of_named? found
    exact ⟨by rw [whole, List.cons_append], upper⟩
  · cases found

theorem eq_of_mem_marksFrom {blocks : List Span} {offset : Nat} {text : Text} {mark : Mark}
    (member : mark ∈ marksFrom blocks offset text) (opening : mark.closing = false) :
    text.drop (mark.offset - offset) = '<' :: mark.name ++ mark.after ∧
      mark.name.head?.any Char.isUpper = true := by
  induction text generalizing offset with
  | nil => simp [marksFrom] at member
  | cons c rest ih =>
    have later (member : mark ∈ marksFrom blocks (offset + 1) rest) :
        (c :: rest).drop (mark.offset - offset) = '<' :: mark.name ++ mark.after ∧
          mark.name.head?.any Char.isUpper = true := by
      obtain ⟨behind, -⟩ := bounds_of_mem_marksFrom member
      have further : mark.offset - offset = (mark.offset - (offset + 1)) + 1 := by omega
      rw [further, List.drop_succ_cons]
      exact ih member
    unfold marksFrom at member
    split at member
    · next first read =>
      rcases List.mem_cons.1 member with rfl | behind
      · split at read
        · cases read
        · have marked := (Option.filter_eq_some_iff.1 read).1
          obtain ⟨place, -⟩ := length_of_mark? marked
          rw [place, Nat.sub_self, List.drop_zero]
          exact eq_of_mark? marked opening
      · exact later behind
    · exact later member

/-- What a tag that the search returns is read off: its head, up to the `>` that the forward reading finds. -/
theorem exists_head_of_ofMark {html : Text} {mark : Mark} {tag : ComponentTag} (found : ofMark html mark = .ok tag) :
    tag.start = mark.offset ∧ tag.name = mark.name ∧
      ∃ head body, TagHead.read? mark.after = some (head, body) := by
  unfold ofMark at found
  dsimp only at found
  split at found
  · cases found
  · next head body read =>
    split at found
    · obtain rfl := Except.ok.inj found
      exact ⟨rfl, rfl, head, body, read⟩
    · split at found
      · cases found
      · obtain rfl := Except.ok.inj found
        exact ⟨rfl, rfl, head, body, read⟩

/-- A tag that the search returns starts with `<` and a capital letter, and the forward reading finds its end. -/
theorem front_of_next? {html : Text} {start : Nat} {tag : ComponentTag} (found : next? html start = .ok (some tag)) :
    opensAt isUpper html tag.start = true ∧
      ∃ stop, TagHead.stop? html (tag.start + 1 + tag.name.length) = some stop ∧ stop < html.length := by
  unfold next? at found
  split at found
  · cases found
  · next mark others first =>
    have kept : mark ∈ (marks html start).dropWhile Mark.closing := by rw [first]; exact List.mem_cons_self
    have member := (List.dropWhile_suffix Mark.closing).subset kept
    have opening : mark.closing = false := stop_of_dropWhile first
    cases made : ofMark html mark with
    | error failure => rw [made] at found; cases found
    | ok result =>
      rw [made] at found
      obtain rfl := Option.some.inj (Except.ok.inj found)
      obtain ⟨place, named, head, body, read⟩ := exists_head_of_ofMark made
      obtain ⟨behind, -⟩ := bounds_of_mem_marksFrom member
      obtain ⟨whole, upper⟩ := eq_of_mem_marksFrom member opening
      rw [List.drop_drop, Nat.add_sub_cancel' behind, ← place, ← named, List.cons_append] at whole
      rw [← named] at upper
      have split := TagHead.eq_of_split? read
      refine ⟨?_, result.start + 1 + result.name.length + head.length, ?_, ?_⟩
      · obtain ⟨c, letters, shape⟩ : ∃ c letters, result.name = c :: letters := by
          cases spelled : result.name with
          | nil => rw [spelled] at upper; cases upper
          | cons c letters => exact ⟨c, letters, rfl⟩
        rw [shape] at upper whole
        have at_ (place : Nat) : html[result.start + place]? = ('<' :: (c :: letters ++ mark.after))[place]? := by
          rw [← whole, List.getElem?_drop]
        have capital : c.isUpper = true := upper
        rw [opensAt, at_ 1, ← Nat.add_zero result.start, at_ 0]
        simp [isUpper, capital]
      · have after : html.drop (result.start + 1 + result.name.length) = mark.after := by
          rw [Nat.add_assoc, ← List.drop_drop, whole, Nat.add_comm 1, List.drop_succ_cons, List.drop_left]
        rw [TagHead.stop?, after, read]
        rfl
      · have size := congrArg List.length whole
        simp only [List.length_drop, List.length_cons, List.length_append, split] at size
        omega

end ComponentTag

theorem Fetch.getElem?_maskFrom (bodies : List Span) (html : Text) (offset : Nat) (text : Text) (place : Nat) :
    (maskFrom bodies html offset text)[place]? = text[place]?.map fun c =>
      if (c == '\x7b' || c == '\x7d') && covered bodies (offset + place) && !insideComponentTag html (offset + place)
      then maskChar c else c := by
  induction text generalizing offset place with
  | nil => rfl
  | cons c rest ih =>
    cases place with
    | zero => rfl
    | succ place =>
      rw [maskFrom, List.getElem?_cons_succ, List.getElem?_cons_succ, ih, Nat.add_right_comm, Nat.add_assoc]

/-- The passes that look for placeholders and braces leave what begins at an offset: each of them writes its
output segment by segment, and a placeholder at that offset is written back. -/
structure OutOfReach (html : Text) (offset : Nat) : Prop where
  evaluation : ∀ scope, ∃ write : Nat × Segment Text → Except Failure Text,
    (Placeholder.substitute html scope = do
      let parts ← (Pattern.located 0 (Pattern.segments Placeholder.pattern html)).mapM write
      .ok parts.flatten) ∧
    ∀ source inner, write (offset, .hit source inner) = .ok source
  marking : ∀ names, names ≠ [] → ∃ write : Nat × Segment Text → Text,
    Signal.mark html names = (Pattern.located 0 (Pattern.segments Signal.placeholder html)).flatMap write ∧
    ∀ source name, write (offset, .hit source name) = source
  masking : ∀ bodies, (Fetch.maskFrom bodies html 0 html)[offset]? = html[offset]?

theorem outOfReach_of_inside {html : Text} {offset : Nat} (inside : insideComponentTag html offset = true) :
    OutOfReach html offset := by
  have frozen (blocks : List Span) : Placeholder.frozen blocks html offset = true := by
    rw [Placeholder.frozen, inside, Bool.or_true]
  refine ⟨fun scope => ⟨_, rfl, fun source inner => ?_⟩, fun names some => ?_, fun bodies => ?_⟩
  · dsimp only
    rw [frozen, Bool.true_or, if_pos rfl]
  · rw [Signal.mark, if_neg some]
    refine ⟨_, rfl, fun source name => ?_⟩
    dsimp only
    rw [frozen, Bool.not_true, Bool.and_false, if_neg Bool.false_ne_true]
  · rw [Fetch.getElem?_maskFrom, Nat.zero_add, inside]
    simp

/-- Up to the `>` that ends the open tag of a component, the backward guard agrees with the forward search for
tags exactly where every stray bracket of the tag is followed by one that opens a component tag, so everywhere in
the tag exactly if its attributes have no stray bracket at all. Where the two agree, no pass fires. -/
theorem insideComponentTag_iff_reopened {html : Text} {start : Nat} {tag : ComponentTag}
    (found : ComponentTag.next? html start = .ok (some tag)) :
    ∃ stop, TagHead.stop? html (tag.start + 1 + tag.name.length) = some stop ∧
      (∀ offset, tag.start < offset → offset ≤ stop →
        (insideComponentTag html offset = true ↔ Reopened isUpper html tag.start offset)) ∧
      ((∀ offset, tag.start < offset → offset ≤ stop → insideComponentTag html offset = true) ↔
        ∀ offset, tag.start < offset → offset < stop → straysAt isUpper html offset = false) ∧
      ∀ offset, insideComponentTag html offset = true → OutOfReach html offset := by
  obtain ⟨front, stop, ends, within⟩ := ComponentTag.front_of_next? found
  have agrees (offset : Nat) (behind : tag.start < offset) (before : offset ≤ stop) :
      insideComponentTag html offset = true ↔ Reopened isUpper html tag.start offset :=
    opensTag_iff_reopened front behind (by omega)
  refine ⟨stop, ends, agrees, ⟨fun inside offset behind before => ?_, fun none offset behind before => ?_⟩,
    fun offset inside => outOfReach_of_inside inside⟩
  · by_contra strays
    obtain ⟨opening, after, earlier, -⟩ :=
      (agrees (offset + 1) (by omega) before).1 (inside (offset + 1) (by omega) before) offset behind (by omega)
        (Bool.not_eq_false _ ▸ strays)
    omega
  · exact (agrees offset behind before).2 (reopened_of_none fun place after earlier =>
      none place after (by omega))

/-- In `<C a='>' b={x} />` the quoted bracket hides the tag from the guard at the expression behind it. -/
theorem insideComponentTag_quoted_bracket :
    ∃ (html : Text) (tag : ComponentTag) (stop : Nat), ComponentTag.next? html 0 = .ok (some tag) ∧
      TagHead.stop? html (tag.start + 1 + tag.name.length) = some stop ∧
      (tag.start < 11 ∧ 11 ≤ stop ∧ insideComponentTag html 11 = false) ∧
      OutOfReach html 5 ∧
      ¬∀ offset, tag.start < offset → offset ≤ stop → insideComponentTag html offset = true := by
  let html : Text := "<C a='>' b={x} />"
  let tag : ComponentTag := ⟨0, 17, "C", true, "a='>' b={x}", []⟩
  have found : ComponentTag.next? html 0 = .ok (some tag) := by decide +kernel
  obtain ⟨stop, ends, -, everywhere, leaves⟩ := insideComponentTag_iff_reopened found
  obtain rfl : 16 = stop := Option.some.inj ((by decide : some 16 = TagHead.stop? html 2).trans ends)
  refine ⟨html, tag, 16, found, ends, ⟨by decide, by decide, by decide⟩, leaves 5 (by decide), fun inside => ?_⟩
  have clean := everywhere.1 inside 6 (by decide) (by decide)
  exact absurd clean (by decide)

end ComponentPages
