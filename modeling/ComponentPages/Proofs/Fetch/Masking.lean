import ComponentPages.Proofs.Fetch.Survival

/-!
Where braces are masked. A tag that asks for data takes in all up to the end of its closing tag, and a tag that does
not end takes in the rest of the text. Such a stretch is outermost when it begins in no outermost one, and the braces
in the bodies of the outermost stretches are the ones that masking hides.
-/
namespace ComponentPages

namespace Fetch

/-- What a tag takes in: from where it begins to where it stops, with its body between. -/
structure Extent where
  start : Nat
  body : Span
  stop : Nat

/-- What an element takes in, where its closing tag is not missing. -/
def Site.extent? (html : Text) (site : Site) : Option Extent :=
  if TagHead.closesItself site.head then some ⟨site.offset, ⟨site.bodyStart, site.bodyStart⟩, site.bodyStart⟩
  else (Tag.close? html site.name site.bodyStart).map fun close =>
    ⟨site.offset, ⟨site.bodyStart, close.start⟩, close.stop⟩

/-- What the tag at a mark takes in. A tag that ends takes in something if it asks for data. -/
def extent? (html : Text) (mark : Mark) : Option Extent :=
  match TagHead.read? mark.after with
  | none => some ⟨mark.offset, ⟨html.length, html.length⟩, html.length⟩
  | some (head, body) =>
    if (request? head).isSome then Site.extent? html ⟨mark.offset, mark.name, head, body⟩ else none

/-- An extent that begins inside no other outermost one. -/
def IsOutermost (html : Text) (extent : Extent) : Prop :=
  (∃ mark ∈ elementMarks html 0, extent? html mark = some extent) ∧
    ∀ outer : Extent, outer.start < extent.start → IsOutermost html outer → outer.stop ≤ extent.start
termination_by extent.start

theorem isOutermost_iff {html : Text} {extent : Extent} :
    IsOutermost html extent ↔ (∃ mark ∈ elementMarks html 0, extent? html mark = some extent) ∧
      ∀ outer : Extent, outer.start < extent.start → IsOutermost html outer → outer.stop ≤ extent.start := by
  rw [IsOutermost]

/-- A place in a text inside no outermost extent that begins before it. -/
def IsBorder (html : Text) (place : Nat) : Prop :=
  ∀ extent, IsOutermost html extent → extent.start < place → extent.stop ≤ place

/-! ### Marks in order -/

section Marks

variable {first part : Char → Bool} {blocks : List Span}

theorem marksFrom_eq (offset : Nat) (c : Char) (text : Text) :
    marksFrom first part blocks offset (c :: text) =
      (if covered blocks offset then none else mark? first part offset (c :: text)).toList ++
        marksFrom first part blocks (offset + 1) text := by
  rw [marksFrom]
  split
  · next mark read => rw [read, Option.toList_some, List.singleton_append]
  · next nothing => rw [nothing, Option.toList_none, List.nil_append]

theorem offset_of_mark? {offset : Nat} {text : Text} {mark : Mark} (found : mark? first part offset text = some mark) :
    mark.offset = offset := by
  unfold mark? at found
  split at found
  · split at found
    · rw [← Option.some.inj found]
    · cases found
  · cases found

theorem offset_of_mem_front {offset : Nat} {text : Text} {mark : Mark}
    (member : mark ∈ (if covered blocks offset then none else mark? first part offset text).toList) :
    mark.offset = offset := by
  rw [Option.mem_toList] at member
  split at member
  · cases member
  · exact offset_of_mark? member

/-- Searching from a later place finds the marks from that place on. -/
theorem marksFrom_drop (offset count : Nat) (text : Text) :
    marksFrom first part blocks (offset + count) (text.drop count) =
      (marksFrom first part blocks offset text).filter fun mark => offset + count ≤ mark.offset := by
  induction text generalizing offset count with
  | nil => simp [marksFrom]
  | cons c text ih =>
    cases count with
    | zero =>
      rw [Nat.add_zero, List.drop_zero, List.filter_eq_self.2]
      intro mark member
      exact decide_eq_true (bounds_of_mem_marksFrom member).1
    | succ count =>
      have later := ih (offset + 1) count
      rw [Nat.add_right_comm, Nat.add_assoc] at later
      have front : (if covered blocks offset then none else mark? first part offset (c :: text)).toList.filter
          (fun mark => offset + (count + 1) ≤ mark.offset) = [] := by
        refine List.filter_eq_nil_iff.2 fun mark member => ?_
        have here := offset_of_mem_front member
        simp only [decide_eq_true_eq]
        omega
      rw [List.drop_succ_cons, later, marksFrom_eq, List.filter_append, front, List.nil_append]

theorem pairwise_marksFrom (offset : Nat) (text : Text) :
    (marksFrom first part blocks offset text).Pairwise fun mark later => mark.offset < later.offset := by
  induction text generalizing offset with
  | nil => exact .nil
  | cons c text ih =>
    rw [marksFrom_eq, List.pairwise_append]
    refine ⟨?_, ih (offset + 1), fun mark member later behind => ?_⟩
    · cases if covered blocks offset then none else mark? first part offset (c :: text) <;> simp
    · have here := offset_of_mem_front member
      have bounds := bounds_of_mem_marksFrom behind
      omega

end Marks

theorem mem_elementMarks {html : Text} {start : Nat} {mark : Mark} :
    mark ∈ elementMarks html start ↔ mark ∈ elementMarks html 0 ∧ start ≤ mark.offset := by
  have searched := @marksFrom_drop Char.isLower (fun c => c.isAlphanum || c == '-') (Block.spans html) 0 start html
  rw [Nat.zero_add] at searched
  simp only [elementMarks, List.drop_zero, searched, List.mem_filter, decide_eq_true_eq]

/-! ### What a search passes by -/

/-- A tag that ends and asks for no data. -/
def Passes (mark : Mark) : Prop := ∃ head body, TagHead.read? mark.after = some (head, body) ∧ request? head = none

theorem Passes.extent?_eq_none {mark : Mark} (passes : Passes mark) (html : Text) : extent? html mark = none := by
  obtain ⟨head, body, read, unasked⟩ := passes
  simp [extent?, read, unasked]

/-- A search ends at the first tag that it cannot pass by. -/
theorem search_cases (marks : List Mark) :
    (∀ mark ∈ marks, Passes mark) ∧ siteOf? marks = none ∨
      ∃ before mark after, marks = before ++ mark :: after ∧ (∀ other ∈ before, Passes other) ∧
        (TagHead.read? mark.after = none ∧ siteOf? marks = none ∨
          ∃ head body, TagHead.read? mark.after = some (head, body) ∧ (request? head).isSome = true ∧
            siteOf? marks = some ⟨mark.offset, mark.name, head, body⟩) := by
  induction marks with
  | nil => exact .inl ⟨by simp, rfl⟩
  | cons mark marks ih =>
    rw [siteOf?]
    cases read : TagHead.read? mark.after with
    | none => exact .inr ⟨[], mark, marks, rfl, by simp, .inl ⟨read, rfl⟩⟩
    | some parts =>
      obtain ⟨head, body⟩ := parts
      dsimp only
      by_cases asks : (request? head).isSome = true
      · rw [if_pos asks]
        exact .inr ⟨[], mark, marks, rfl, by simp, .inr ⟨head, body, read, asks, rfl⟩⟩
      · rw [if_neg asks]
        have passes : Passes mark := ⟨head, body, read, by simpa using asks⟩
        rcases ih with ⟨all, nothing⟩ | ⟨before, stopped, after, rfl, passed, ends⟩
        · exact .inl ⟨by simpa using ⟨passes, all⟩, nothing⟩
        · exact .inr ⟨mark :: before, stopped, after, rfl, by simpa using ⟨passes, passed⟩, ends⟩

/-! ### The outermost extents -/

section Outermost

variable {html : Text} {start : Nat} {before after : List Mark} {mark : Mark} {extent : Extent}

theorem Site.start_of_extent? {site : Site} (taken : site.extent? html = some extent) : extent.start = site.offset := by
  unfold Site.extent? at taken
  split at taken
  · rw [← Option.some.inj taken]
  · obtain ⟨close, -, rfl⟩ := Option.map_eq_some_iff.1 taken
    rfl

theorem start_of_extent? (taken : extent? html mark = some extent) : extent.start = mark.offset := by
  unfold extent? at taken
  split at taken
  · rw [← Option.some.inj taken]
  · split at taken
    · exact Site.start_of_extent? taken
    · cases taken

theorem Site.bounds_of_extent? {site : Site} (inside : site.bodyStart ≤ html.length)
    (taken : site.extent? html = some extent) : site.bodyStart ≤ extent.stop ∧ extent.stop ≤ html.length := by
  unfold Site.extent? at taken
  split at taken
  · obtain rfl := Option.some.inj taken
    exact ⟨Nat.le_refl _, inside⟩
  · obtain ⟨close, closed, rfl⟩ := Option.map_eq_some_iff.1 taken
    have bounds := Tag.bounds_of_closeFrom? closed
    rw [List.length_drop] at bounds
    dsimp only
    omega

theorem bounds_of_extent? (member : mark ∈ elementMarks html 0) (taken : extent? html mark = some extent) :
    extent.start < extent.stop ∧ extent.stop ≤ html.length := by
  have bounds := bounds_of_mem_marksFrom member
  rw [List.drop_zero, Nat.zero_add] at bounds
  have here := start_of_extent? taken
  unfold extent? at taken
  split at taken
  · obtain rfl := Option.some.inj taken
    dsimp only
    omega
  · next head body read =>
    have size := congrArg List.length (TagHead.eq_of_split? read)
    rw [List.length_append, List.length_cons] at size
    split at taken
    · have ends := Site.bounds_of_extent? (by simp only [Site.bodyStart]; omega) taken
      simp only [Site.bodyStart] at ends
      omega
    · cases taken

/-- A later tag behind a border that takes in something is not passed by. -/
theorem mem_of_not_passed (marks : elementMarks html start = before ++ mark :: after)
    (passed : ∀ other ∈ before, Passes other) {other : Mark} (listed : other ∈ elementMarks html 0)
    (behind : start ≤ other.offset) (taken : extent? html other = some extent) :
    other = mark ∨ other ∈ after ∧ mark.offset < other.offset := by
  have found : other ∈ before ++ mark :: after := by
    rw [← marks]
    exact mem_elementMarks.2 ⟨listed, behind⟩
  have ordered : (elementMarks html start).Pairwise fun mark later => mark.offset < later.offset :=
    pairwise_marksFrom start (html.drop start)
  rw [marks, List.pairwise_append, List.pairwise_cons] at ordered
  rcases List.mem_append.1 found with inBefore | later
  · rw [(passed other inBefore).extent?_eq_none html] at taken
    cases taken
  · rcases List.mem_cons.1 later with rfl | inAfter
    · exact .inl rfl
    · exact .inr ⟨inAfter, ordered.2.1.1 other inAfter⟩

/-- The first tag from a border on that takes in something takes in an outermost extent. -/
theorem isOutermost_first (border : IsBorder html start) (marks : elementMarks html start = before ++ mark :: after)
    (passed : ∀ other ∈ before, Passes other) (taken : extent? html mark = some extent) : IsOutermost html extent := by
  have member : mark ∈ elementMarks html start := by rw [marks]; simp
  have place := mem_elementMarks.1 member
  have here := start_of_extent? taken
  refine isOutermost_iff.2 ⟨⟨mark, place.1, taken⟩, fun outer earlier outermost => ?_⟩
  by_cases beyond : outer.start < start
  · have ends := border outer outermost beyond
    omega
  · obtain ⟨other, listed, takes⟩ := (isOutermost_iff.1 outermost).1
    have offset := start_of_extent? takes
    rcases mem_of_not_passed marks passed listed (by omega) takes with rfl | ⟨-, later⟩
    · omega
    · omega

/-- Any other outermost extent from there on begins behind it. -/
theorem outermost_cases (border : IsBorder html start) (marks : elementMarks html start = before ++ mark :: after)
    (passed : ∀ other ∈ before, Passes other) (taken : extent? html mark = some extent) {other : Extent}
    (outermost : IsOutermost html other) (behind : start ≤ other.start) : other = extent ∨ extent.stop ≤ other.start := by
  obtain ⟨⟨place, listed, takes⟩, alone⟩ := isOutermost_iff.1 outermost
  have offset := start_of_extent? takes
  rcases mem_of_not_passed marks passed listed (by omega) takes with rfl | ⟨-, later⟩
  · rw [takes] at taken
    exact .inl (Option.some.inj taken)
  · have first := isOutermost_first border marks passed taken
    have here := start_of_extent? taken
    exact .inr (alone extent (by omega) first)

theorem isBorder_stop (border : IsBorder html start) (marks : elementMarks html start = before ++ mark :: after)
    (passed : ∀ other ∈ before, Passes other) (taken : extent? html mark = some extent) : IsBorder html extent.stop := by
  intro other outermost earlier
  have member : mark ∈ elementMarks html start := by rw [marks]; simp
  have place := mem_elementMarks.1 member
  have bounds := bounds_of_extent? place.1 taken
  have here := start_of_extent? taken
  by_cases beyond : other.start < start
  · have ends := border other outermost beyond
    omega
  · rcases outermost_cases border marks passed taken outermost (by omega) with rfl | later
    · exact Nat.le_refl _
    · omega

end Outermost

/-- What a search from a border finds takes in the first outermost extent, and behind that there is a border. -/
theorem first_of_next? {html : Text} {start : Nat} (border : IsBorder html start) {site : Site}
    (found : next? html start = some site) {extent : Extent} (taken : site.extent? html = some extent) :
    IsOutermost html extent ∧ start ≤ extent.start ∧ IsBorder html extent.stop ∧
      ∀ other, IsOutermost html other → start ≤ other.start → other = extent ∨ extent.stop ≤ other.start := by
  rcases search_cases (elementMarks html start) with ⟨-, nothing⟩ | ⟨before, mark, after, marks, passed, ends⟩
  · rw [next?, nothing] at found
    cases found
  · rcases ends with ⟨-, nothing⟩ | ⟨head, body, read, asks, same⟩
    · rw [next?, nothing] at found
      cases found
    · rw [next?, same] at found
      obtain rfl := Option.some.inj found
      have takes : extent? html mark = some extent := by rw [extent?, read, ← taken]; exact if_pos asks
      have member : mark ∈ elementMarks html start := by rw [marks]; simp
      have behind := (mem_elementMarks.1 member).2
      have here := start_of_extent? takes
      exact ⟨isOutermost_first border marks passed takes, by omega, isBorder_stop border marks passed takes,
        fun other outermost later => outermost_cases border marks passed takes outermost later⟩

/-- Where a search from a border finds nothing, no outermost extent from there on has anything in its body. -/
theorem not_covers_of_next? {html : Text} {start : Nat} (border : IsBorder html start) (nothing : next? html start = none)
    {extent : Extent} (outermost : IsOutermost html extent) (behind : start ≤ extent.start) (place : Nat) :
    extent.body.covers place = false := by
  obtain ⟨⟨other, listed, takes⟩, -⟩ := isOutermost_iff.1 outermost
  have offset := start_of_extent? takes
  rcases search_cases (elementMarks html start) with ⟨all, -⟩ | ⟨before, mark, after, marks, passed, ends⟩
  · have passes := all other (mem_elementMarks.2 ⟨listed, by omega⟩)
    rw [passes.extent?_eq_none html] at takes
    cases takes
  · rcases ends with ⟨unended, -⟩ | ⟨head, body, read, asks, same⟩
    · have taken : extent? html mark = some ⟨mark.offset, ⟨html.length, html.length⟩, html.length⟩ := by
        rw [extent?, unended]
      rcases outermost_cases border marks passed taken outermost behind with rfl | later
      · simp only [Span.covers, Bool.and_eq_false_iff, decide_eq_false_iff_not]
        omega
      · have bounds := bounds_of_extent? listed takes
        dsimp only at later
        omega
    · rw [next?, same] at nothing
      cases nothing

/-- Behind the first outermost extent from a border on, the bodies are that one's and those of the later ones. -/
theorem covers_iff_of_first {html : Text} {start : Nat} {first : Extent} (outermost : IsOutermost html first)
    (behind : start ≤ first.start) (proper : first.start < first.stop)
    (others : ∀ other, IsOutermost html other → start ≤ other.start → other = first ∨ first.stop ≤ other.start) (place : Nat) :
    (∃ extent, IsOutermost html extent ∧ start ≤ extent.start ∧ extent.body.covers place = true) ↔
      first.body.covers place = true ∨
        ∃ extent, IsOutermost html extent ∧ first.stop ≤ extent.start ∧ extent.body.covers place = true := by
  constructor
  · rintro ⟨extent, outer, later, covers⟩
    rcases others extent outer later with rfl | beyond
    · exact .inl covers
    · exact .inr ⟨extent, outer, beyond, covers⟩
  · rintro (covers | ⟨extent, outer, beyond, covers⟩)
    · exact ⟨first, outermost, behind, covers⟩
    · exact ⟨extent, outer, by omega, covers⟩

/-- The bodies that a search from a border finds are those of the outermost extents from there on. -/
theorem covered_of_bodies {html : Text} {start : Nat} {spans : List Span} (found : bodies html start = .ok spans)
    (border : IsBorder html start) (place : Nat) :
    covered spans place = true ↔
      ∃ extent, IsOutermost html extent ∧ start ≤ extent.start ∧ extent.body.covers place = true := by
  fun_induction bodies html start generalizing spans with
  | case1 start nothing =>
    obtain rfl := Except.ok.inj found
    constructor
    · intro covers
      cases covers
    · rintro ⟨extent, outermost, behind, covers⟩
      rw [not_covers_of_next? border nothing outermost behind] at covers
      cases covers
  | case2 start site next bounds closes ih =>
    have taken : site.extent? html = some ⟨site.offset, ⟨site.bodyStart, site.bodyStart⟩, site.bodyStart⟩ := if_pos closes
    obtain ⟨outermost, behind, further, others⟩ := first_of_next? border next taken
    rw [covers_iff_of_first outermost behind (by simp only [Site.bodyStart]; omega) others, ← ih found further]
    have empty : (⟨site.bodyStart, site.bodyStart⟩ : Span).covers place = false := by
      simp only [Span.covers, Bool.and_eq_false_iff, decide_eq_false_iff_not]
      omega
    rw [empty]
    simp
  | case3 start site next bounds opens unclosed => cases found
  | case4 start site next bounds opens close closed inside ih =>
    have taken : site.extent? html = some ⟨site.offset, ⟨site.bodyStart, close.start⟩, close.stop⟩ := by
      rw [Site.extent?, if_neg opens, closed]
      rfl
    obtain ⟨outermost, behind, further, others⟩ := first_of_next? border next taken
    rw [covers_iff_of_first outermost behind (by simp only [Site.bodyStart] at inside ⊢; omega) others]
    cases rest : bodies html close.stop with
    | error failure =>
      rw [rest] at found
      cases found
    | ok later =>
      rw [rest] at found
      obtain rfl := Except.ok.inj found
      rw [← ih rest further, covered, List.any_cons, Bool.or_eq_true]
      rfl

/-! ### Masking and its undoing -/

section Masking

variable {spans : List Span} {html : Text}

theorem maskChar_ne_of_isBrace {c : Char} (brace : Placeholder.isBrace c = true) : maskChar c ≠ c := by
  rw [Placeholder.isBrace, Bool.or_eq_true, beq_iff_eq, beq_iff_eq] at brace
  rcases brace with rfl | rfl <;> decide

theorem unmaskChar_maskChar {c : Char} (noOpen : c ≠ maskOpen) (noClose : c ≠ maskClose) :
    unmaskChar (maskChar c) = c := by
  unfold maskChar
  split
  · next left => rw [left]; decide
  · split
    · next right => rw [right]; decide
    · rw [unmaskChar, if_neg noOpen, if_neg noClose]

theorem unmask_maskFrom (offset : Nat) {text : Text} (free : ∀ c ∈ text, c ≠ maskOpen ∧ c ≠ maskClose) :
    unmask (maskFrom spans html offset text) = text := by
  refine List.ext_getElem? fun place => ?_
  rw [unmask, List.getElem?_map, getElem?_maskFrom, Option.map_map]
  cases at_ : text[place]? with
  | none => rfl
  | some c =>
    obtain ⟨noOpen, noClose⟩ := free c (List.mem_of_getElem? at_)
    rw [Option.map_some, Function.comp_apply]
    split
    · rw [unmaskChar_maskChar noOpen noClose]
    · rw [unmaskChar, if_neg noOpen, if_neg noClose]

theorem length_maskFrom (offset : Nat) (text : Text) : (maskFrom spans html offset text).length = text.length := by
  induction text generalizing offset with
  | nil => rfl
  | cons c text ih => rw [maskFrom, List.length_cons, ih, List.length_cons]

theorem getElem?_maskFrom_ne_iff {place : Nat} (inside : place < html.length) :
    (maskFrom spans html 0 html)[place]? ≠ html[place]? ↔
      (Placeholder.isBrace html[place] = true ∧ covered spans place = true) ∧ insideComponentTag html place = false := by
  rw [getElem?_maskFrom, List.getElem?_eq_getElem inside, Option.map_some, Nat.zero_add, ne_eq, Option.some.injEq,
    ← Bool.not_eq_true', ← Bool.and_eq_true, ← Bool.and_eq_true]
  change ¬(if _ then _ else _) = _ ↔ (Placeholder.isBrace html[place] && _ && _) = true
  split
  · next hidden =>
    have parts := hidden
    simp only [Bool.and_eq_true] at parts
    exact iff_of_true (maskChar_ne_of_isBrace parts.1.1) hidden
  · next shown => exact iff_of_false (fun differs => differs rfl) shown

end Masking

/-- Masking hides just the braces that stand in the body of an outermost extent and in no component tag, one character
for one, and unmasking brings them back. -/
theorem mask_hides_outermost {html masked : Text} (free : ∀ c ∈ html, c ≠ maskOpen ∧ c ≠ maskClose)
    (hidden : mask html = .ok masked) :
    unmask masked = html ∧ masked.length = html.length ∧
      ∀ place : Fin html.length, masked[place.val]? ≠ html[place.val]? ↔
        Placeholder.isBrace html[place] = true ∧ insideComponentTag html place = false ∧
          ∃ extent, IsOutermost html extent ∧ extent.body.covers place = true := by
  cases found : bodies html 0 with
  | error failure =>
    rw [mask, found] at hidden
    cases hidden
  | ok spans =>
    rw [mask, found] at hidden
    obtain rfl := Except.ok.inj hidden
    refine ⟨unmask_maskFrom 0 free, length_maskFrom 0 html, fun place => ?_⟩
    have border : IsBorder html 0 := fun extent _ before => absurd before (Nat.not_lt_zero _)
    have covers : covered spans place = true ↔ ∃ extent, IsOutermost html extent ∧ extent.body.covers place = true := by
      simpa using covered_of_bodies found border place
    show _ ↔ Placeholder.isBrace html[place.val] = true ∧ _
    rw [getElem?_maskFrom_ne_iff place.isLt, covers, and_assoc, and_comm (b := insideComponentTag html place = false)]

/-- Elements in each other, a component tag among them and a brace behind. -/
theorem mask_hides_outermost_nested :
    let html : Text := "<a fetch='u'>\x7bx\x7d<C p=\x7by\x7d /><b fetch='v'>\x7bz\x7d</b></a>\x7bw\x7d"
    let masked : Text := "<a fetch='u'>\ue000x\ue001<C p=\x7by\x7d /><b fetch='v'>\ue000z\ue001</b></a>\x7bw\x7d"
    ((∀ c ∈ html, c ≠ maskOpen ∧ c ≠ maskClose) ∧ mask html = .ok masked) ∧
      unmask masked = html ∧ masked.length = html.length ∧
        ∀ place : Fin html.length, masked[place.val]? ≠ html[place.val]? ↔
          Placeholder.isBrace html[place] = true ∧ insideComponentTag html place = false ∧
            ∃ extent, IsOutermost html extent ∧ extent.body.covers place = true := by
  intro html masked
  have free : ∀ c ∈ html, c ≠ maskOpen ∧ c ≠ maskClose := by decide
  have hidden : mask html = .ok masked := eq_ok_of_toOption (by decide +kernel)
  exact ⟨⟨free, hidden⟩, mask_hides_outermost free hidden⟩

end Fetch

end ComponentPages
