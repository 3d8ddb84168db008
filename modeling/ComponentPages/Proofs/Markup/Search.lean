import ComponentPages.Proofs.Markup.Forest
import ComponentPages.Proofs.Markup.Inside

/-!
The search for component tags on any text, whatever state its markup is in. Where an opening tag begins is read off the text
at that place alone. The search answers at the first such place from its offset on that lies in no script or style block: it
gives the tag there, whose parts are cut out of the text in their order, or it fails because that tag does not end. Going on
from the end of each tag it finds, it visits tags that lie apart, and comes to an end.
-/
namespace ComponentPages

namespace ComponentTag

variable {html : Text} {start : Nat}

/-- The front of an opening tag: `<` and the longest component name behind it, which a space, tab, line break, `/`, `>` or
the end of the text follows. -/
structure IsOpening (text name after : Text) : Prop where
  whole : text = '<' :: name ++ after
  capital : name.head?.any Char.isUpper = true
  letters : ∀ c ∈ name, c.isAlphanum = true
  longest : after.head?.all (fun c => !c.isAlphanum) = true
  apart : after.head?.all (fun c => (" \t\r\n/>" : Text).elem c) = true

/-- An opening tag begins at an offset, outside script and style blocks. -/
def BeginsAt (html : Text) (offset : Nat) : Prop :=
  covered (Block.spans html) offset = false ∧ ∃ name after, IsOpening (html.drop offset) name after

/-- The first place from an offset on at which an opening tag begins. -/
structure IsFirst (html : Text) (start offset : Nat) : Prop where
  behind : start ≤ offset
  begins : BeginsAt html offset
  first : ∀ earlier, start ≤ earlier → earlier < offset → ¬BeginsAt html earlier

/-! ### Where the search answers -/

theorem named?_eq_some_iff {offset : Nat} {closing : Bool} {text name after : Text} :
    named? offset closing text = some ⟨offset, closing, name, after⟩ ↔
      text = name ++ after ∧ name.head?.any Char.isUpper = true ∧ (∀ c ∈ name, c.isAlphanum = true) ∧
        after.head?.all (fun c => !c.isAlphanum) = true := by
  constructor
  · intro found
    obtain ⟨whole, capital, -⟩ := eq_of_named? found
    refine ⟨whole, capital, ?_⟩
    unfold named? at found
    split at found
    · cases found
    · next c tail =>
      split at found
      · next upper =>
        obtain ⟨-, -, rfl, rfl⟩ := Mark.mk.inj (Option.some.inj found)
        refine ⟨List.forall_mem_cons.2 ⟨?_, fun d member => List.mem_takeWhile_imp member⟩, all_head?_dropWhile _ _⟩
        simp [Char.isAlphanum, Char.isAlpha, upper]
      · cases found
  · rintro ⟨rfl, capital, letters, stops⟩
    cases name with
    | nil => cases capital
    | cons c name =>
      have upper : c.isUpper = true := capital
      obtain ⟨run, rest⟩ := Text.takeWhile_append_of_stop (List.forall_mem_cons.1 letters).2 stops
      rw [List.cons_append, named?, if_pos upper, run, rest]

/-- A capital is no slash, so a name that begins with one is read right behind the bracket. -/
theorem mark?_of_capital {name : Text} (capital : name.head?.any Char.isUpper = true) (offset : Nat) (after : Text) :
    mark? offset ('<' :: name ++ after) = named? offset false (name ++ after) := by
  cases name with
  | nil => cases capital
  | cons c name =>
    rw [List.cons_append, List.cons_append, mark?]
    rintro rest same
    obtain ⟨rfl, -⟩ := List.cons.inj same
    have upper : Char.isUpper '/' = true := capital
    exact absurd upper (by decide)

/-- A mark that opens a tag and counts is the front of an opening tag. -/
theorem filter_mark?_eq_some_iff {offset : Nat} {text name after : Text} :
    (mark? offset text).filter Mark.counts = some ⟨offset, false, name, after⟩ ↔ IsOpening text name after := by
  rw [Option.filter_eq_some_iff]
  constructor
  · rintro ⟨found, counts⟩
    obtain ⟨whole, capital⟩ := eq_of_mark? found rfl
    rw [whole, mark?_of_capital capital] at found
    obtain ⟨-, -, letters, longest⟩ := named?_eq_some_iff.1 found
    exact ⟨whole, capital, letters, longest, counts⟩
  · rintro ⟨rfl, capital, letters, longest, apart⟩
    rw [mark?_of_capital capital]
    exact ⟨named?_eq_some_iff.2 ⟨rfl, capital, letters, longest⟩, apart⟩

/-- What the first mark that opens a tag says of the text from an offset on, if there is one. -/
def Answers (html : Text) (start : Nat) : Option Mark → Prop
  | none => ∀ offset, start ≤ offset → ¬BeginsAt html offset
  | some mark => IsFirst html start mark.offset ∧ IsOpening (html.drop mark.offset) mark.name mark.after

/-- An offset at which no tag begins may be passed over. -/
theorem Answers.back {answer : Option Mark} (passed : ¬BeginsAt html start) (answers : Answers html (start + 1) answer) :
    Answers html start answer := by
  have onward {offset : Nat} (behind : start ≤ offset) (begins : BeginsAt html offset) : start + 1 ≤ offset := by
    rcases Nat.eq_or_lt_of_le behind with rfl | beyond
    · exact absurd begins passed
    · exact beyond
  cases answer with
  | none => exact fun offset behind begins => answers offset (onward behind begins) begins
  | some mark =>
    obtain ⟨⟨behind, begins, first⟩, opening⟩ := answers
    exact ⟨⟨Nat.le_of_succ_le behind, begins, fun earlier after before starts =>
      first earlier (onward after starts) before starts⟩, opening⟩

theorem answers_marksFrom {text : Text} (stands : html.drop start = text) :
    Answers html start ((marksFrom (Block.spans html) start text).dropWhile Mark.closing).head? := by
  induction text generalizing start with
  | nil =>
    rintro offset behind ⟨-, name, after, opening⟩
    have beyond : html.drop offset = [] := List.drop_eq_nil_of_le (Nat.le_trans (List.drop_eq_nil_iff.1 stands) behind)
    rw [beyond] at opening
    cases opening.whole
  | cons c rest ih =>
    have later := ih (Text.drop_succ_of_cons stands)
    have here (begins : BeginsAt html start) : covered (Block.spans html) start = false ∧
        ∃ name after, (mark? start (c :: rest)).filter Mark.counts = some ⟨start, false, name, after⟩ := by
      obtain ⟨outside, name, after, opening⟩ := begins
      exact ⟨outside, name, after, filter_mark?_eq_some_iff.2 (stands ▸ opening)⟩
    rw [marksFrom]
    by_cases covering : covered (Block.spans html) start = true
    · rw [if_pos covering]
      refine later.back fun begins => ?_
      rw [(here begins).1] at covering
      cases covering
    · have outside := Bool.eq_false_iff.2 covering
      rw [if_neg covering]
      cases read : (mark? start (c :: rest)).filter Mark.counts with
      | none =>
        refine later.back fun begins => ?_
        obtain ⟨-, name, after, found⟩ := here begins
        rw [read] at found
        cases found
      | some mark =>
        dsimp only
        obtain ⟨offset, closing, name, after⟩ := mark
        obtain ⟨rfl, -⟩ := length_of_mark? (Option.filter_eq_some_iff.1 read).1
        cases closing with
        | true =>
          -- A closing mark stands where no tag opens.
          rw [List.dropWhile_cons_of_pos rfl]
          refine later.back fun begins => ?_
          obtain ⟨-, other, behind, found⟩ := here begins
          rw [read] at found
          cases found
        | false =>
          have opening : IsOpening (html.drop offset) name after := stands ▸ filter_mark?_eq_some_iff.1 read
          rw [List.dropWhile_cons_of_neg Bool.false_ne_true, List.head?_cons]
          exact ⟨⟨Nat.le_refl _, ⟨outside, name, after, opening⟩, fun earlier after before => by omega⟩, opening⟩

theorem next?_eq (html : Text) (start : Nat) :
    next? html start =
      match ((marks html start).dropWhile Mark.closing).head? with
      | none => .ok none
      | some mark => (ofMark html mark).map some := by
  rw [next?]
  cases (marks html start).dropWhile Mark.closing <;> rfl

/-! ### What the search answers -/

/-- How the text of a tag is put together: it is an open tag that closes itself, or an open tag, the inner text and a
closing tag. -/
inductive Composed (tag : ComponentTag) (head : Text) : Text → Prop
  | single (flagged : tag.selfClosing = true) (itself : TagHead.closesItself head = true)
      (attributes : tag.attributes = Text.trim (Text.trimRight head).dropLast) (inner : tag.inner = []) :
      Composed tag head (openTag tag.name head)
  | paired {gap : Text} (flagged : tag.selfClosing = false) (itself : TagHead.closesItself head = false)
      (attributes : tag.attributes = Text.trim head) (free : '>' ∉ gap) :
      Composed tag head (openTag tag.name head ++ tag.inner ++ Tag.closeTag tag.name gap)

/-- A tag as it stands in a text. Its head is what the reading of the text behind its name takes for one. -/
structure IsFoundIn (html : Text) (tag : ComponentTag) : Prop where
  outside : covered (Block.spans html) tag.start = false
  nonempty : tag.start < tag.stop
  within : tag.stop ≤ html.length
  ends : html[tag.stop - 1]? = some '>'
  parts : ∃ head body, IsOpening (html.drop tag.start) tag.name (head ++ '>' :: body) ∧
    TagHead.read? (head ++ '>' :: body) = some (head, body) ∧ Composed tag head (Text.slice html tag.start tag.stop)

/-- Why an opening tag is no whole tag: its head does not end, or it has no closing tag. -/
inductive Broken (html : Text) (offset : Nat) : Failure → Prop
  | unended {name after : Text} (opening : IsOpening (html.drop offset) name after) (unread : TagHead.read? after = none) :
      Broken html offset (.unclosedTag name ((html.drop offset).take 80))
  | unclosed {name head body : Text} (opening : IsOpening (html.drop offset) name (head ++ '>' :: body))
      (read : TagHead.read? (head ++ '>' :: body) = some (head, body)) (itself : TagHead.closesItself head = false)
      (unmatched : Tag.close? html name (offset + (openTag name head).length) = none) :
      Broken html offset (.unclosedComponent name)

end ComponentTag

/-- A closing tag that the search for one finds stands in the text as a closing tag of that name. -/
theorem Tag.exists_of_closeFrom? {html : Text} {blocks : List Span} {name text : Text} {depth offset : Nat} {span : Span}
    (stands : html.drop offset = text) (found : closeFrom? blocks name depth offset text = some span) :
    offset ≤ span.start ∧ ∃ gap rest, '>' ∉ gap ∧ html.drop span.start = closeTag name gap ++ rest ∧
      span.stop = span.start + (closeTag name gap).length := by
  induction text generalizing depth offset with
  | nil => cases found
  | cons c rest ih =>
    have later {depth : Nat} (found : closeFrom? blocks name depth (offset + 1) rest = some span) :=
      ih (Text.drop_succ_of_cons stands) found
    have onward {depth : Nat} (found : closeFrom? blocks name depth (offset + 1) rest = some span) :=
      And.intro (Nat.le_of_succ_le (later found).1) (later found).2
    unfold closeFrom? at found
    split at found
    · exact onward found
    · next after read =>
      have named : named? name (c :: rest) = some (true, after) := by
        split at read
        · cases read
        · exact read
      split at found
      · cases found
      · next gap behind cut =>
        split at found
        · obtain rfl := Option.some.inj found
          have whole := (exists_of_named? named).2
          rw [Text.eq_of_cut? cut] at whole
          refine ⟨Nat.le_refl _, gap, behind, fun member => Text.free_of_cut? cut '>' member rfl, ?_, ?_⟩
          · rw [stands, whole]
            simp [closeTag]
          · simp only [closeTag, List.length_append, List.length_cons, List.length_nil]
            omega
        · exact onward found
    · split at found
      · cases found
      · split at found
        · exact onward found
        · exact onward found

namespace ComponentTag

variable {html : Text} {start : Nat}

/-- What a text says of the offsets of a piece of it that ends in `>`. -/
theorem extent_of_drop {front rest : Text} (stands : html.drop start = front ++ ['>'] ++ rest) :
    start + (front ++ ['>']).length ≤ html.length ∧ html[start + (front ++ ['>']).length - 1]? = some '>' := by
  have size := congrArg List.length stands
  simp only [List.length_drop, List.length_append, List.length_cons, List.length_nil] at size ⊢
  refine ⟨by omega, ?_⟩
  rw [← Nat.add_assoc, Nat.add_sub_cancel, ← List.getElem?_drop, stands, List.append_assoc,
    List.getElem?_append_right (Nat.le_refl _), Nat.sub_self]
  rfl

/-- The text from one place up to another, at which a piece stands. -/
theorem exists_between {stop : Nat} {piece rest : Text} (after : start ≤ stop) (stands : html.drop stop = piece ++ rest)
    (nonempty : piece ≠ []) :
    html.drop start = (html.drop start).take (stop - start) ++ (piece ++ rest) ∧
      start + ((html.drop start).take (stop - start)).length = stop := by
  have place : (html.drop start).drop (stop - start) = piece ++ rest := by
    rw [List.drop_drop, Nat.add_sub_cancel' after, stands]
  constructor
  · rw [← place, List.take_append_drop]
  · have some := List.length_pos_iff.2 nonempty
    have size := congrArg List.length place
    simp only [List.length_drop, List.length_append, List.length_take] at size ⊢
    omega

/-- A text that is put together as a tag ends in `>`. -/
theorem Composed.exists_front {tag : ComponentTag} {head source : Text} (composed : Composed tag head source) :
    ∃ front, source = front ++ ['>'] := by
  cases composed with
  | single => exact ⟨'<' :: tag.name ++ head, rfl⟩
  | @paired gap =>
    exact ⟨openTag tag.name head ++ tag.inner ++ ('<' :: '/' :: tag.name ++ gap), (List.append_assoc ..).symm⟩

theorem isFoundIn_of_composed {tag : ComponentTag} {head body source rest : Text}
    (outside : covered (Block.spans html) tag.start = false)
    (opening : IsOpening (html.drop tag.start) tag.name (head ++ '>' :: body))
    (read : TagHead.read? (head ++ '>' :: body) = some (head, body)) (composed : Composed tag head source)
    (stands : html.drop tag.start = source ++ rest) (stop : tag.stop = tag.start + source.length) : IsFoundIn html tag := by
  obtain ⟨front, ended⟩ := composed.exists_front
  obtain ⟨within, ends⟩ := extent_of_drop (ended ▸ stands)
  rw [← ended, ← stop] at within ends
  refine ⟨outside, ?_, within, ends, head, body, opening, read, ?_⟩
  · rw [stop, ended, List.length_append, List.length_singleton]
    omega
  · rw [stop, Text.slice_of_drop stands]
    exact composed

/-- The open tag at a place, in front of what its head leaves. -/
theorem IsOpening.openTag_eq {text name head body : Text} (opening : IsOpening text name (head ++ '>' :: body)) :
    text = openTag name head ++ body := by
  rw [opening.whole, openTag]
  simp

theorem length_openTag (name head : Text) : (openTag name head).length = 1 + name.length + head.length + 1 := by
  simp only [openTag, List.length_append, List.length_cons, List.length_nil]
  omega

theorem isFoundIn_of_ofMark {mark : Mark} {tag : ComponentTag}
    (outside : covered (Block.spans html) mark.offset = false)
    (opening : IsOpening (html.drop mark.offset) mark.name mark.after) (made : ofMark html mark = .ok tag) :
    tag.start = mark.offset ∧ IsFoundIn html tag := by
  unfold ofMark at made
  dsimp only at made
  split at made
  · cases made
  · next head body read =>
    rw [TagHead.eq_of_split? read] at opening read
    have stands := opening.openTag_eq
    have bodyStart : mark.offset + 1 + mark.name.length + head.length + 1 =
        mark.offset + (openTag mark.name head).length := by
      rw [length_openTag]
      omega
    rw [bodyStart] at made
    split at made
    · next itself =>
      obtain rfl := Except.ok.inj made
      exact ⟨rfl, isFoundIn_of_composed outside opening read (.single rfl itself rfl rfl) stands rfl⟩
    · next itself =>
      split at made
      · cases made
      · next close closed =>
        obtain rfl := Except.ok.inj made
        have behind := Text.drop_of_drop stands
        obtain ⟨after, gap, rest, free, closing, stop⟩ := Tag.exists_of_closeFrom? behind closed
        obtain ⟨between, size⟩ := exists_between after closing (List.cons_ne_nil _ _)
        rw [behind] at between size
        have whole : html.drop mark.offset = openTag mark.name head ++
            body.take (close.start - (mark.offset + (openTag mark.name head).length)) ++ Tag.closeTag mark.name gap ++ rest := by
          rw [List.append_assoc, List.append_assoc, ← between]
          exact stands
        refine ⟨rfl, isFoundIn_of_composed outside opening read (.paired rfl (Bool.eq_false_iff.2 itself) rfl free) whole ?_⟩
        rw [List.length_append, List.length_append, ← Nat.add_assoc, ← Nat.add_assoc, size]
        exact stop

theorem broken_of_ofMark {mark : Mark} {failure : Failure}
    (opening : IsOpening (html.drop mark.offset) mark.name mark.after) (failed : ofMark html mark = .error failure) :
    Broken html mark.offset failure := by
  unfold ofMark at failed
  dsimp only at failed
  split at failed
  · next unread =>
    obtain rfl := Except.error.inj failed
    exact .unended opening unread
  · next head body read =>
    rw [TagHead.eq_of_split? read] at opening read
    split at failed
    · cases failed
    · next itself =>
      split at failed
      · next unmatched =>
        obtain rfl := Except.error.inj failed
        refine .unclosed opening read (Bool.eq_false_iff.2 itself) ?_
        rw [Tag.close?, Text.drop_of_drop opening.openTag_eq, length_openTag, ← Nat.add_assoc, ← Nat.add_assoc,
          ← Nat.add_assoc]
        exact unmatched
      · cases failed

/-- The search answers at the first place at which an opening tag begins, with the tag there or with the reason why there is no
whole one. -/
theorem answers_next? (html : Text) (start : Nat) :
    match next? html start with
    | .ok none => ∀ offset, start ≤ offset → ¬BeginsAt html offset
    | .ok (some tag) => IsFirst html start tag.start ∧ IsFoundIn html tag
    | .error failure => ∃ offset, IsFirst html start offset ∧ Broken html offset failure := by
  have answers : Answers html start ((marks html start).dropWhile Mark.closing).head? := answers_marksFrom rfl
  rw [next?_eq]
  cases found : ((marks html start).dropWhile Mark.closing).head? with
  | none =>
    rw [found] at answers
    exact answers
  | some mark =>
    rw [found] at answers
    obtain ⟨first, opening⟩ := answers
    dsimp only
    cases made : ofMark html mark with
    | error failure => exact ⟨mark.offset, first, broken_of_ofMark opening made⟩
    | ok tag =>
      obtain ⟨place, stands⟩ := isFoundIn_of_ofMark first.begins.1 opening made
      exact ⟨place ▸ first, stands⟩

/-! ### Searching on -/

/-- The tags that are found one after the other, each from the end of the one before it, and where the search stands then. -/
inductive Visits (html : Text) : Nat → List ComponentTag → Nat → Prop
  | stay (start : Nat) : Visits html start [] start
  | found {start stop : Nat} {tag : ComponentTag} {tags : List ComponentTag} (finds : next? html start = .ok (some tag))
      (later : Visits html tag.stop tags stop) : Visits html start (tag :: tags) stop

/-- Tags that are visited lie behind the start and behind each other, so there are no more of them than characters. -/
theorem Visits.spread {tags : List ComponentTag} {stop : Nat} (visits : Visits html start tags stop) :
    tags.length ≤ html.length - start ∧ (∀ tag ∈ tags, start ≤ tag.start ∧ tag.start < tag.stop ∧ tag.stop ≤ html.length) ∧
      tags.Pairwise fun tag later => tag.stop ≤ later.start := by
  induction visits with
  | stay start => exact ⟨Nat.zero_le _, List.forall_mem_nil _, .nil⟩
  | @found start stop tag tags finds later ih =>
    obtain ⟨few, behind, apart⟩ := ih
    obtain ⟨after, nonempty, within, -⟩ := bounds_of_next? finds
    refine ⟨?_, List.forall_mem_cons.2 ⟨⟨after, nonempty, within⟩, fun other member => ?_⟩,
      .cons (fun other member => (behind other member).1) apart⟩
    · rw [List.length_cons]
      omega
    · obtain ⟨further, bounds⟩ := behind other member
      exact ⟨by omega, bounds⟩

/-- Searching on ends: every tag leaves less of the text. -/
theorem exists_visits (html : Text) (start : Nat) :
    ∃ tags stop, Visits html start tags stop ∧ ∀ tag, next? html stop ≠ .ok (some tag) := by
  induction left : html.length - start using Nat.strongRecOn generalizing start with
  | _ left ih =>
    by_cases finds : ∃ tag, next? html start = .ok (some tag)
    · obtain ⟨tag, finds⟩ := finds
      have bounds := bounds_of_next? finds
      obtain ⟨tags, stop, later, ended⟩ := ih (html.length - tag.stop) (by omega) tag.stop rfl
      exact ⟨tag :: tags, stop, .found finds later, ended⟩
    · exact ⟨[], start, .stay start, fun tag found => finds ⟨tag, found⟩⟩

/-- The search for component tags is exact on every text and from every offset. A tag that it gives stands at the first place
at which one begins, with its parts in order; it gives none just when none begins anywhere; and it fails only where the first
one is broken. Searching on from the end of each tag visits tags behind each other, no more than there are characters, and
comes to a place from which no further tag is found. -/
theorem next?_exact (html : Text) (start : Nat) :
    (∀ tag, next? html start = .ok (some tag) → IsFirst html start tag.start ∧ IsFoundIn html tag) ∧
      (next? html start = .ok none ↔ ∀ offset, start ≤ offset → ¬BeginsAt html offset) ∧
      (∀ failure, next? html start = .error failure → ∃ offset, IsFirst html start offset ∧ Broken html offset failure) ∧
      (∀ tags stop, Visits html start tags stop →
        tags.length ≤ html.length - start ∧
          (∀ tag ∈ tags, start ≤ tag.start ∧ tag.start < tag.stop ∧ tag.stop ≤ html.length) ∧
          tags.Pairwise fun tag later => tag.stop ≤ later.start) ∧
      ∃ tags stop, Visits html start tags stop ∧ ∀ tag, next? html stop ≠ .ok (some tag) := by
  have answers := answers_next? html start
  refine ⟨fun tag found => ?_, ⟨fun found => ?_, fun nowhere => ?_⟩, fun failure failed => ?_,
    fun tags stop visits => visits.spread, exists_visits html start⟩
  · rw [found] at answers
    exact answers
  · rw [found] at answers
    exact answers
  · cases found : next? html start with
    | error failure =>
      rw [found] at answers
      obtain ⟨offset, first, -⟩ := answers
      exact absurd first.begins (nowhere offset first.behind)
    | ok tag? =>
      cases tag? with
      | none => rfl
      | some tag =>
        rw [found] at answers
        exact absurd answers.1.begins (nowhere tag.start answers.1.behind)
  · rw [failed] at answers
    exact answers

/-- A dangling closing tag, a component in a style, a name with something else behind it, nested components of one name with a
`>` between quotes, and a tag without end. -/
def tattered : Text := "</A><style><B/></style><C:/> <Card a='>'><Card/></Card ><Card"

def tatteredCard : ComponentTag := ⟨29, 56, "Card", false, "a='>'", "<Card/>"⟩

set_option maxRecDepth 4000 in
theorem next?_exact_tattered :
    next? tattered 0 = .ok (some tatteredCard) ∧ IsFirst tattered 0 29 ∧ IsFoundIn tattered tatteredCard ∧
      Visits tattered 0 [tatteredCard] 56 ∧ [tatteredCard].length ≤ tattered.length ∧
      next? tattered 56 = .error (.unclosedTag "Card" "<Card") ∧
      ∃ offset, IsFirst tattered 56 offset ∧ Broken tattered offset (.unclosedTag "Card" "<Card") := by
  have found : next? tattered 0 = .ok (some tatteredCard) := by cbv
  have failed : next? tattered 56 = .error (.unclosedTag "Card" "<Card") := by cbv
  have visits : Visits tattered 0 [tatteredCard] 56 := .found found (.stay 56)
  obtain ⟨exact_, -, -, spread, -⟩ := next?_exact tattered 0
  obtain ⟨first, stands⟩ := exact_ tatteredCard found
  exact ⟨found, first, stands, visits, (spread _ _ visits).1, failed, (next?_exact tattered 56).2.2.1 _ failed⟩

end ComponentTag

end ComponentPages
