import ComponentPages.Proofs.Fetch.PlainHead
import ComponentPages.Proofs.Markup.Forest
import ComponentPages.Proofs.Markup.Handler
import ComponentPages.Proofs.Markup.Inside
import ComponentPages.Proofs.Outcome

/-!
Bodies of fetch elements. The closing tag of an element is found behind its body when the elements of the same name
nest in it, and a body whose tags have plain heads holds neither a request nor a directive. Both stay true when the
braces of the body are masked.
-/
namespace ComponentPages

/-- The front of a script or a style, its name in any letter case. -/
def Block.front : Pattern Unit := fun text => do
  let named ← Text.after? "<" text
  let rest ← (Text.afterFolded? "script" named).or (Text.afterFolded? "style" named)
  some ((), rest)

/-- The front of a tag whose name begins in upper case. -/
def Tag.capital : Pattern Unit
  | '<' :: c :: rest => if isUpper c then some ((), rest) else none
  | _ => none

/-- Whether the elements of a name nest in a text, given how many are open before it. -/
def Tag.nests (name : Text) (depth : Nat) : Text → Bool
  | [] => depth == 0
  | c :: rest =>
    match named? name (c :: rest) with
    | none => nests name depth rest
    | some (true, _) => depth != 0 && nests name (depth - 1) rest
    | some (false, after) =>
      match TagHead.read? after with
      | none => false
      | some (head, _) => nests name (if TagHead.closesItself head then depth else depth + 1) rest

/-- The start of an inline handler, with white space before it. -/
def Signal.spacedHandler : Pattern Text
  | [] => none
  | c :: rest => if isBlank c then handlerStart rest else none

namespace Fetch

/-- A lower-case ASCII letter, then ASCII letters, digits and hyphens. -/
def isElementName : Text → Bool
  | [] => false
  | c :: rest => c.isLower && rest.all isTagNamePart

/-- Whether a tag has a plain head, given what follows its name; a tag that does not end has none. -/
def IsPlainTag (after : Text) : Prop :=
  '>' ∈ after → ∃ head rest, IsPlainHead head ∧ after = head ++ '>' :: rest

/-- The tags of a text outside of which nothing is a script or a style. -/
def tagMarksFrom : Nat → Text → List Mark := marksFrom Char.isAlpha isSlugPart []

/-- Text between the tags of an element, as the search for the closing one reads it: no tag of a component and no block
opens in it, elements of the same name nest, and tags have plain heads. -/
structure IsEnclosed (name text : Text) : Prop where
  uncapital : Pattern.seek? Tag.capital text = none
  unblocked : Pattern.seek? Block.front text = none
  nested : Tag.nests name 0 text = true
  tagged : ∀ mark ∈ tagMarks text, IsPlainTag mark.after

/-- The body of a fetch element: it holds no handler either, and none of the characters that mask braces and mark
signals. -/
structure IsBody (name text : Text) : Prop extends IsEnclosed name text where
  unhandled : Pattern.seek? Signal.spacedHandler text = none
  unreserved : ∀ c ∈ text, isReserved c = false

end Fetch

/-! ### Reading on past the end of a text -/

namespace Block

theorem front_of_ne (c : Char) (text : Text) (other : c ≠ '<') : front (c :: text) = none := by
  simp [front, Text.after?, other.symm]

theorem front_cons_angle (text : Text) :
    front ('<' :: text) =
      ((Text.afterFolded? "script" text).or (Text.afterFolded? "style" text)).map fun rest => ((), rest) := by
  have behind : Text.after? "<" ('<' :: text) = some text := rfl
  rw [front, behind, Option.bind_eq_bind, Option.bind_some]
  cases (Text.afterFolded? "script" text).or (Text.afterFolded? "style" text) <;> rfl

theorem front_eq_none_iff {text : Text} :
    front ('<' :: text) = none ↔ Text.afterFolded? "script" text = none ∧ Text.afterFolded? "style" text = none := by
  rw [front_cons_angle, Option.map_eq_none_iff, Option.or_eq_none_iff]

/-- Where no block has its front, none is guarded. -/
theorem guarded_of_front {text : Text} (nothing : front text = none) : guarded text = none := by
  cases text with
  | nil => rfl
  | cons c text =>
    by_cases angle : c = '<'
    · subst angle
      obtain ⟨script, style⟩ := front_eq_none_iff.1 nothing
      have unopened {word : Text} (unread : Text.afterFolded? word text = none) : opening? word ('<' :: text) = none := by
        simp [opening?, Text.after?, unread]
      rw [guarded, unopened script, unopened style]
      rfl
    · rw [guarded, opening?_of_ne _ c text angle, opening?_of_ne _ c text angle]
      rfl

theorem signal_of_front {text : Text} (nothing : front text = none) : Signal.block text = none := by
  cases text with
  | nil => rfl
  | cons c text =>
    by_cases angle : c = '<'
    · subst angle
      have behind : Text.after? "<" ('<' :: text) = some text := rfl
      rw [Signal.block, behind, Option.bind_eq_bind, Option.bind_some, (front_eq_none_iff.1 nothing).1]
      rfl
    · exact Signal.block_of_ne c text angle

theorem absent_of_front {α : Type} {read : Pattern α} (rests : ∀ text, front text = none → read text = none) {text : Text}
    (absent : Pattern.Absent front text) : Pattern.Absent read text := by
  intro before c after whole
  exact rests _ (absent before c after whole)

theorem spans_of_front {text : Text} (absent : Pattern.Absent front text) : spans text = [] :=
  spans_of_absent (absent_of_front (fun _ => guarded_of_front) absent)

theorem front_append_border (c : Char) (text more : Text) (nothing : front (c :: text) = none) :
    front (c :: text ++ '<' :: more) = none := by
  by_cases angle : c = '<'
  · subst angle
    obtain ⟨script, style⟩ := front_eq_none_iff.1 nothing
    rw [List.cons_append, front_eq_none_iff, Text.afterFolded?_append_border (by decide),
      Text.afterFolded?_append_border (by decide), script, style]
    exact ⟨rfl, rfl⟩
  · exact front_of_ne c _ angle

theorem front_map_maskChar (text : Text) (nothing : front text = none) : front (text.map Fetch.maskChar) = none := by
  cases text with
  | nil => rfl
  | cons c text =>
    rw [List.map_cons]
    by_cases angle : c = '<'
    · subst angle
      obtain ⟨script, style⟩ := front_eq_none_iff.1 nothing
      have same : Fetch.maskChar '<' = '<' := by decide
      rw [same, front_eq_none_iff, Text.afterFolded?_map_maskChar (by decide),
        Text.afterFolded?_map_maskChar (by decide), script, style]
      exact ⟨rfl, rfl⟩
    · refine front_of_ne _ _ fun same => angle ?_
      exact (Fetch.maskChar_eq_iff (by decide) (by decide)).1 same

end Block

namespace Tag

theorem capital_of_ne (c : Char) (text : Text) (other : c ≠ '<') : capital (c :: text) = none := by
  unfold capital
  split
  · next same => exact absurd (List.cons.inj same).1 other
  · rfl

theorem capital_cons_angle (text : Text) :
    capital ('<' :: text) = none ↔ text.head?.any isUpper = false := by
  cases text with
  | nil => exact iff_of_true rfl rfl
  | cons c text =>
    cases upper : isUpper c <;> simp [capital, upper]

theorem capital_append_border (c : Char) (text more : Text) (nothing : capital (c :: text) = none) :
    capital (c :: text ++ '<' :: more) = none := by
  by_cases angle : c = '<'
  · subst angle
    rw [capital_cons_angle] at nothing
    rw [List.cons_append, capital_cons_angle]
    cases text with
    | nil => rfl
    | cons d text => exact nothing
  · exact capital_of_ne c _ angle

theorem capital_map_maskChar (text : Text) (nothing : capital text = none) :
    capital (text.map Fetch.maskChar) = none := by
  cases text with
  | nil => rfl
  | cons c text =>
    rw [List.map_cons]
    by_cases angle : c = '<'
    · subst angle
      have same : Fetch.maskChar '<' = '<' := by decide
      rw [capital_cons_angle] at nothing
      rw [same, capital_cons_angle]
      cases text with
      | nil => rfl
      | cons d text =>
        rw [List.map_cons, List.head?_cons, Option.any_some, Fetch.apply_maskChar (f := isUpper) (by decide) (by decide)]
        exact nothing
    · refine capital_of_ne _ _ fun same => angle ?_
      exact (Fetch.maskChar_eq_iff (by decide) (by decide)).1 same

theorem nameEnds_map_maskChar (text : Text) : nameEnds (text.map Fetch.maskChar) = nameEnds text := by
  cases text with
  | nil => rfl
  | cons c text => exact Fetch.apply_maskChar (f := fun c => isBlank c || c == '/' || c == '>') (by decide) (by decide) c

section Name

variable {name : Text} (parts : ∀ c ∈ name, isTagNamePart c = true)
include parts

theorem named?_append_border (c : Char) (text more : Text) :
    named? name (c :: text ++ '<' :: more) =
      (named? name (c :: text)).map fun (closing, after) => (closing, after ++ '<' :: more) := by
  have foreign : '<' ∉ name := fun member => absurd (parts '<' member) (by decide)
  have filtered (word : Text) (absent : '<' ∉ word) :
      (Text.after? ('<' :: word) (c :: text ++ '<' :: more)).filter nameEnds =
        ((Text.after? ('<' :: word) (c :: text)).filter nameEnds).map (· ++ '<' :: more) := by
    rw [List.cons_append, Text.after?, Text.after?, Text.after?_append_border absent]
    split
    · cases Text.after? word text with
      | none => rfl
      | some rest =>
        -- A name that ends with the text ends nowhere: the tag behind the text is no end of a name.
        cases rest with
        | nil => rfl
        | cons d rest =>
          rw [Option.map_some, List.cons_append, Option.filter_some, Option.filter_some]
          have same : nameEnds (d :: (rest ++ '<' :: more)) = nameEnds (d :: rest) := rfl
          rw [same]
          split <;> rfl
    · rfl
  have slashed : '<' ∉ '/' :: name := by simp [foreign]
  have closing : ['<', '/'] ++ name = '<' :: '/' :: name := rfl
  rw [named?, named?, closing, filtered _ slashed, filtered _ foreign]
  cases (Text.after? ('<' :: '/' :: name) (c :: text)).filter nameEnds with
  | some rest => rfl
  | none =>
    cases (Text.after? ('<' :: name) (c :: text)).filter nameEnds <;> rfl

theorem named?_map_maskChar (text : Text) :
    named? name (text.map Fetch.maskChar) =
      (named? name text).map fun (closing, after) => (closing, after.map Fetch.maskChar) := by
  have plain : ∀ c ∈ name, Placeholder.isBrace c = false ∧ isReserved c = false := by
    intro c member
    have constant := isConstantPart_of_isMentionPart (isMentionPart_of_isTagNamePart (parts c member))
    simp only [isConstantPart, Bool.and_eq_true, Bool.not_eq_true'] at constant
    exact ⟨constant.1.1.2, constant.2⟩
  have filtered (word : Text) (free : ∀ c ∈ word, Placeholder.isBrace c = false ∧ isReserved c = false) :
      (Text.after? word (text.map Fetch.maskChar)).filter nameEnds =
        ((Text.after? word text).filter nameEnds).map (List.map Fetch.maskChar) := by
    rw [Text.after?_map_maskChar free]
    cases Text.after? word text with
    | none => rfl
    | some rest =>
      rw [Option.map_some, Option.filter_some, Option.filter_some, nameEnds_map_maskChar]
      split <;> rfl
  have angled : ∀ c ∈ '<' :: name, Placeholder.isBrace c = false ∧ isReserved c = false :=
    List.forall_mem_cons.2 ⟨by decide, plain⟩
  have slashed : ∀ c ∈ ['<', '/'] ++ name, Placeholder.isBrace c = false ∧ isReserved c = false :=
    List.forall_mem_cons.2 ⟨by decide, List.forall_mem_cons.2 ⟨by decide, plain⟩⟩
  rw [named?, named?, filtered _ slashed, filtered _ angled]
  cases (Text.after? (['<', '/'] ++ name) text).filter nameEnds with
  | some rest => rfl
  | none =>
    cases (Text.after? ('<' :: name) text).filter nameEnds <;> rfl

end Name

end Tag

namespace Fetch

/-! ### The tags of a text -/

section Marks

variable {first part : Char → Bool}

theorem marksFrom_cons (offset : Nat) (c : Char) (text : Text) :
    marksFrom first part [] offset (c :: text) =
      (mark? first part offset (c :: text)).toList ++ marksFrom first part [] (offset + 1) text := by
  rw [marksFrom, covered_nil, if_neg Bool.false_ne_true]
  split
  · next mark found => rw [found]; rfl
  · next found => rw [found]; rfl

theorem mark?_of_ne {c : Char} (other : c ≠ '<') (offset : Nat) (text : Text) :
    mark? first part offset (c :: text) = none := by
  unfold mark?
  split
  · next same => exact absurd (List.cons.inj same).1 other
  · rfl

theorem mark?_map_maskChar (begins : first ∘ maskChar = first) (continues : part ∘ maskChar = part)
    (braceless : ∀ c, first c || part c → Placeholder.isBrace c = false) (offset : Nat) (text : Text) :
    mark? first part offset (text.map maskChar) =
      (mark? first part offset text).map fun mark => { mark with after := mark.after.map maskChar } := by
  cases text with
  | nil => rfl
  | cons c text =>
    rw [List.map_cons]
    by_cases angle : c = '<'
    · subst angle
      have same : maskChar '<' = '<' := by decide
      rw [same]
      cases text with
      | nil => rfl
      | cons d tail =>
        have here : first (maskChar d) = first d := congrFun begins d
        rw [List.map_cons, mark?, mark?, List.takeWhile_map, List.dropWhile_map, continues, Tag.nameEnds_map_maskChar, here]
        by_cases accepted : (first d && Tag.nameEnds (tail.dropWhile part)) = true
        · rw [if_pos accepted, if_pos accepted, Option.map_some]
          rw [Bool.and_eq_true] at accepted
          have first' := maskChar_of_not_isBrace (braceless d (by simp [accepted.1]))
          have later := map_maskChar_of_free fun e (member : e ∈ tail.takeWhile part) =>
            braceless e (by simp [List.mem_takeWhile_imp member])
          rw [first', later]
        · rw [if_neg accepted, if_neg accepted, Option.map_none]
    · have other : maskChar c ≠ '<' := fun same => angle ((maskChar_eq_iff (by decide) (by decide)).1 same)
      rw [mark?_of_ne other, mark?_of_ne angle, Option.map_none]

/-- A name in front of what ends it is read whole. -/
theorem mark?_append {c : Char} {name after : Text} (begins : first c = true) (parts : ∀ d ∈ name, part d = true)
    (stops : after.head?.all (fun d => !part d) = true) (ends : Tag.nameEnds after = true) (offset : Nat) :
    mark? first part offset ('<' :: (c :: name ++ after)) = some ⟨offset, c :: name, after⟩ := by
  obtain ⟨taken, dropped⟩ := Text.takeWhile_append_of_stop parts stops
  rw [List.cons_append, mark?, dropped, taken, begins, ends, Bool.and_self, if_pos rfl]

theorem exists_of_mark? {offset : Nat} {text : Text} {mark : Mark} (found : mark? first part offset text = some mark) :
    ∃ c name, first c = true ∧ (∀ d ∈ name, part d = true) ∧ mark.name = c :: name ∧
      Tag.nameEnds mark.after = true ∧ text = '<' :: (c :: name ++ mark.after) := by
  unfold mark? at found
  split at found
  · next c tail =>
    split at found
    · next accepted =>
      rw [Bool.and_eq_true] at accepted
      obtain rfl := Option.some.inj found
      refine ⟨c, tail.takeWhile part, accepted.1, fun d member => List.mem_takeWhile_imp member, rfl, accepted.2, ?_⟩
      rw [List.cons_append, List.takeWhile_append_dropWhile]
    · cases found
  · cases found

end Marks

/-- No character of a name follows the end of a name. -/
theorem stops_of_nameEnds {after : Text} (ends : Tag.nameEnds after = true) :
    after.head?.all (fun d => !isSlugPart d) = true ∧ after.head?.all (fun d => !isTagNamePart d) = true := by
  cases after with
  | nil => exact ⟨rfl, rfl⟩
  | cons c after =>
    simp only [Tag.nameEnds, List.head?_cons, Option.any_some, Bool.or_eq_true, beq_iff_eq] at ends
    rcases ends with (blank | rfl) | rfl
    · have name : isTagNamePart c = false := by
        rw [← Bool.not_eq_true]
        intro part
        rw [isBlank_of_isTagNamePart part] at blank
        cases blank
      simp [isSlugPart_of_isBlank blank, name]
    · exact ⟨rfl, rfl⟩
    · exact ⟨rfl, rfl⟩

theorem braceless_of_isSlugPart {c : Char} (part : (c.isAlpha || isSlugPart c) = true) : Placeholder.isBrace c = false := by
  cases brace : Placeholder.isBrace c with
  | false => rfl
  | true =>
    simp only [Placeholder.isBrace, Bool.or_eq_true, beq_iff_eq] at brace
    rcases brace with rfl | rfl <;> exact absurd part (by decide)

theorem isElementName_parts {name : Text} (named : isElementName name = true) : ∀ c ∈ name, isTagNamePart c = true := by
  cases name with
  | nil => cases named
  | cons c rest =>
    simp only [isElementName, Bool.and_eq_true, List.all_eq_true] at named
    intro d member
    rcases List.mem_cons.1 member with rfl | later
    · simp [isTagNamePart, Char.isAlphanum, Char.isAlpha, named.1]
    · exact named.2 d later

/-- What is read as an opening tag of a name is a tag with that name. -/
theorem mark?_of_named? {name text after : Text} (named : isElementName name = true)
    (found : Tag.named? name text = some (false, after)) (offset : Nat) :
    mark? Char.isAlpha isSlugPart offset text = some ⟨offset, name, after⟩ := by
  obtain ⟨ends, rfl⟩ := Tag.exists_of_named? found
  have parts := isElementName_parts named
  cases name with
  | nil => cases named
  | cons c name =>
    simp only [isElementName, Bool.and_eq_true] at named
    have letter : c.isAlpha = true := by simp [Char.isAlpha, named.1]
    exact mark?_append letter (fun d member => isSlugPart_of_isTagNamePart (parts d (List.mem_cons_of_mem c member)))
      (stops_of_nameEnds ends).1 ends offset

/-- The tag of an element with a lower-case name is a tag. -/
theorem mark?_of_elementMark? {offset : Nat} {text : Text} {mark : Mark} (found : elementMark? offset text = some mark) :
    mark? Char.isAlpha isSlugPart offset text = some mark := by
  obtain ⟨c, name, lower, parts, named, ends, rfl⟩ := exists_of_mark? found
  have letter : c.isAlpha = true := by simp [Char.isAlpha, lower]
  have place : mark.offset = offset := by
    have again := mark?_append lower parts (stops_of_nameEnds ends).2 ends offset
    exact congrArg Mark.offset (Option.some.inj (found.symm.trans again))
  rw [mark?_append letter (fun d member => isSlugPart_of_isTagNamePart (parts d member))
    (stops_of_nameEnds ends).1 ends, ← named, ← place]

theorem mem_tagMarksFrom_of_mem_elementMarksFrom {offset : Nat} {text : Text} {mark : Mark}
    (member : mark ∈ elementMarksFrom offset text) : mark ∈ tagMarksFrom offset text := by
  induction text generalizing offset with
  | nil => exact member
  | cons c text ih =>
    rw [elementMarksFrom_cons, List.mem_append, Option.mem_toList] at member
    rw [tagMarksFrom, marksFrom_cons, List.mem_append, Option.mem_toList]
    rcases member with here | later
    · exact .inl (mark?_of_elementMark? here)
    · exact .inr (ih later)

theorem tagMarksFrom_map_maskChar (offset : Nat) (text : Text) :
    tagMarksFrom offset (text.map maskChar) =
      (tagMarksFrom offset text).map fun mark => { mark with after := mark.after.map maskChar } := by
  have begins : Char.isAlpha ∘ maskChar = Char.isAlpha := funext fun c => apply_maskChar (by decide) (by decide) c
  have continues : isSlugPart ∘ maskChar = isSlugPart :=
    funext fun c => apply_maskChar (by decide +kernel) (by decide +kernel) c
  induction text generalizing offset with
  | nil => rfl
  | cons c text ih =>
    have here := mark?_map_maskChar begins continues (fun d => braceless_of_isSlugPart) offset (c :: text)
    rw [List.map_cons] at here ⊢
    rw [tagMarksFrom, marksFrom_cons, here, marksFrom_cons, List.map_append, ← tagMarksFrom, ih]
    cases mark? Char.isAlpha isSlugPart offset (c :: text) <;> rfl

/-! ### Plain tags -/

/-- A tag with a plain head is read up to the end of the head, whatever follows. -/
theorem IsPlainTag.read?_append {after head rest : Text} (plain : IsPlainTag after)
    (reads : TagHead.read? after = some (head, rest)) (more : Text) :
    IsPlainHead head ∧ TagHead.read? (after ++ more) = some (head, rest ++ more) := by
  have whole := TagHead.eq_of_split? reads
  obtain ⟨plainHead, behind, sound, same⟩ := plain (by rw [whole]; simp)
  rw [same, sound.read?] at reads
  obtain ⟨rfl, rfl⟩ := Prod.mk.inj (Option.some.inj reads)
  refine ⟨sound, ?_⟩
  rw [same, List.append_assoc, List.cons_append, sound.read?]

theorem IsPlainTag.map_maskChar {after : Text} (plain : IsPlainTag after) : IsPlainTag (after.map maskChar) := by
  intro angle
  obtain ⟨c, member, same⟩ := List.mem_map.1 angle
  obtain rfl := (maskChar_eq_iff (by decide) (by decide)).1 same
  obtain ⟨head, rest, sound, rfl⟩ := plain member
  refine ⟨head.map maskChar, rest.map maskChar, sound.map_maskChar, ?_⟩
  rw [List.map_append, List.map_cons, same]

theorem siteOf?_of_plain {marks : List Mark} (plain : ∀ mark ∈ marks, IsPlainTag mark.after) : siteOf? marks = none := by
  induction marks with
  | nil => rfl
  | cons mark marks ih =>
    have here := plain mark List.mem_cons_self
    rw [siteOf?]
    cases reads : TagHead.read? mark.after with
    | none => rfl
    | some found =>
      have sound := (here.read?_append reads []).1
      dsimp only
      rw [sound.request?_eq_none]
      exact ih fun other member => plain other (List.mem_cons_of_mem mark member)

/-- A body without directives is kept. -/
theorem leadsTo_directivesFrom {body : Text} {marks : List Mark} (plain : ∀ mark ∈ marks, IsPlainTag mark.after) :
    (directivesFrom body 0 marks).LeadsTo (pure (body, [])) := by
  induction marks with
  | nil => exact Compile.LeadsTo.refl _
  | cons mark marks ih =>
    have here := plain mark List.mem_cons_self
    rw [directivesFrom, if_neg (Nat.not_lt_zero _)]
    cases reads : TagHead.read? mark.after with
    | none => exact Compile.LeadsTo.refl _
    | some found =>
      have sound := (here.read?_append reads []).1
      have undirected : ((Attribute.tokenize found.1).any fun attr => isDirectiveName attr.name) = false := by
        rw [List.any_eq_false]
        intro attr member
        rw [(sound.isInert_of_mem attr member).2]
        exact Bool.false_ne_true
      dsimp only
      rw [undirected, if_neg Bool.false_ne_true]
      exact Compile.LeadsTo.note (ih fun other member => plain other (List.mem_cons_of_mem mark member)) _

/-! ### The steps of lowering -/

theorem lowerFrom_of_none {html : Text} {position : Nat} (nothing : next? html position = none) (texts : ScriptTexts) :
    (lowerFrom texts html position).LeadsTo (pure (html.drop position)) := by
  rw [lowerFrom]
  split
  · exact Compile.LeadsTo.note (Compile.LeadsTo.refl _) _
  · next found =>
    rw [nothing] at found
    cases found

theorem lowerFrom_of_closed {html : Text} {position : Nat} {site : Site} {close : Span}
    (found : next? html position = some site) (opens : TagHead.closesItself site.head = false)
    (closed : Tag.close? html site.name site.bodyStart = some close) (texts : ScriptTexts) :
    (lowerFrom texts html position).LeadsTo (do
      let body ← lowerFrom texts (Text.slice html site.bodyStart close.start) 0
      let written ← writeElement texts site.name site.head body (Text.slice html close.start close.stop)
      let rest ← lowerFrom texts html close.stop
      pure (Text.slice html position site.offset ++ written ++ rest)) := by
  rw [lowerFrom]
  split
  · next nothing =>
    rw [found] at nothing
    cases nothing
  · next other found' =>
    obtain rfl := Option.some.inj (found.symm.trans found')
    rw [opens, if_neg Bool.false_ne_true]
    split
    · next unclosed =>
      rw [closed] at unclosed
      cases unclosed
    · next close' closed' =>
      obtain rfl := Option.some.inj (closed.symm.trans closed')
      exact Compile.LeadsTo.note (Compile.LeadsTo.refl _) _

theorem lowerFrom_of_single {html : Text} {position : Nat} {site : Site} (found : next? html position = some site)
    (closes : TagHead.closesItself site.head = true) (texts : ScriptTexts) :
    (lowerFrom texts html position).LeadsTo (do
      let written ← writeElement texts site.name site.head [] ("</" ++ site.name ++ ">")
      let rest ← lowerFrom texts html site.bodyStart
      pure (Text.slice html position site.offset ++ written ++ rest)) := by
  rw [lowerFrom]
  split
  · next nothing =>
    rw [found] at nothing
    cases nothing
  · next other found' =>
    obtain rfl := Option.some.inj (found.symm.trans found')
    rw [closes, if_pos rfl]
    exact Compile.LeadsTo.note (Compile.LeadsTo.refl _) _

/-- Without a closing tag the search fails. -/
theorem lowerFrom_of_unclosed {html : Text} {position : Nat} {site : Site} (found : next? html position = some site)
    (opens : TagHead.closesItself site.head = false)
    (unclosed : Tag.close? html site.name site.bodyStart = none) (texts : ScriptTexts) :
    (lowerFrom texts html position).LeadsTo (throw (.unclosedFetch site.name)) := by
  rw [lowerFrom]
  split
  · next nothing =>
    rw [found] at nothing
    cases nothing
  · next other found' =>
    obtain rfl := Option.some.inj (found.symm.trans found')
    rw [opens, if_neg Bool.false_ne_true]
    split
    · exact Compile.LeadsTo.note (Compile.LeadsTo.refl _) _
    · next close' closed' =>
      rw [unclosed] at closed'
      cases closed'

/-! ### Nested elements -/

section Nested

variable {name : Text} (named : isElementName name = true)
include named

/-- Behind text in which the elements of a name nest, the search for the closing tag is as deep as before it. -/
theorem closeFrom?_append {text more : Text} {depth place : Nat} (nested : Tag.nests name depth text = true)
    (tagged : ∀ mark ∈ tagMarksFrom place text, IsPlainTag mark.after) (closes : '>' ∈ more) (offset : Nat) :
    Tag.closeFrom? [] name (depth + 1) offset (text ++ '<' :: more) =
      Tag.closeFrom? [] name 1 (offset + text.length) ('<' :: more) := by
  induction text generalizing depth place offset with
  | nil =>
    rw [Tag.nests, beq_iff_eq] at nested
    subst nested
    rfl
  | cons c text ih =>
    rw [tagMarksFrom, marksFrom_cons] at tagged
    have later (depth : Nat) (nested : Tag.nests name depth text = true) := ih nested (fun mark member => tagged mark (List.mem_append_right _ member)) (offset + 1)
    rw [List.length_cons, Nat.add_comm text.length, ← Nat.add_assoc]
    have read := Tag.named?_append_border (isElementName_parts named) c text more
    rw [Tag.nests] at nested
    rw [List.cons_append] at read ⊢
    rw [Tag.closeFrom?, covered_nil, if_neg Bool.false_ne_true, read]
    cases found : Tag.named? name (c :: text) with
    | none =>
      rw [found] at nested
      exact later depth nested
    | some tag =>
      obtain ⟨closing, after⟩ := tag
      rw [found] at nested
      cases closing with
      | true =>
        simp only [Bool.and_eq_true, bne_iff_ne] at nested
        obtain ⟨inside, rest, cut⟩ : ∃ inside rest, Text.cut? '>' (after ++ '<' :: more) = some (inside, rest) :=
          Text.exists_of_mem_cut (by simp [closes])
        rw [Option.map_some]
        dsimp only
        rw [cut]
        dsimp only
        rw [if_neg (by omega), Nat.add_sub_cancel]
        have deeper := later (depth - 1) nested.2
        rwa [Nat.sub_add_cancel (by omega)] at deeper
      | false =>
        have marked := mark?_of_named? named found place
        have plain := tagged _ (List.mem_append_left _ (Option.mem_toList.2 marked))
        rw [Option.map_some]
        dsimp only at nested plain ⊢
        cases reads : TagHead.read? after with
        | none =>
          rw [reads] at nested
          cases nested
        | some result =>
          obtain ⟨head, rest⟩ := result
          rw [reads] at nested
          rw [(plain.read?_append reads _).2]
          dsimp only at nested ⊢
          split
          · next closed =>
            rw [if_pos closed] at nested
            exact later depth nested
          · next opens =>
            rw [if_neg opens] at nested
            exact later (depth + 1) nested

theorem nests_map_maskChar {text : Text} {depth place : Nat} (nested : Tag.nests name depth text = true)
    (tagged : ∀ mark ∈ tagMarksFrom place text, IsPlainTag mark.after) :
    Tag.nests name depth (text.map maskChar) = true := by
  induction text generalizing depth place with
  | nil => exact nested
  | cons c text ih =>
    rw [tagMarksFrom, marksFrom_cons] at tagged
    have later (depth : Nat) (nested : Tag.nests name depth text = true) := ih nested (fun mark member => tagged mark (List.mem_append_right _ member))
    have read := Tag.named?_map_maskChar (isElementName_parts named) (c :: text)
    rw [Tag.nests] at nested
    rw [List.map_cons] at read ⊢
    rw [Tag.nests, read]
    cases found : Tag.named? name (c :: text) with
    | none =>
      rw [found] at nested
      exact later depth nested
    | some tag =>
      obtain ⟨closing, after⟩ := tag
      rw [found] at nested
      cases closing with
      | true =>
        simp only [Option.map_some, Bool.and_eq_true] at nested ⊢
        exact ⟨nested.1, later (depth - 1) nested.2⟩
      | false =>
        have marked := mark?_of_named? named found place
        have plain := tagged _ (List.mem_append_left _ (Option.mem_toList.2 marked))
        rw [Option.map_some]
        dsimp only at nested plain ⊢
        cases reads : TagHead.read? after with
        | none =>
          rw [reads] at nested
          cases nested
        | some result =>
          obtain ⟨head, rest⟩ := result
          have sound := (plain.read?_append reads []).1
          rw [reads] at nested
          rw [TagHead.eq_of_split? reads, List.map_append, List.map_cons, show maskChar '>' = '>' by decide,
            sound.map_maskChar.read?]
          dsimp only at nested ⊢
          rw [TagHead.closesItself_map_maskChar]
          exact later _ nested

/-- Masking the braces of a body is not seen from outside. -/
theorem IsEnclosed.map_maskChar {text : Text} (enclosed : IsEnclosed name text) : IsEnclosed name (text.map maskChar) := by
  have absent := Pattern.absent_of_seek? enclosed.unblocked
  have masked := Pattern.absent_map Block.front_map_maskChar absent
  have tagged := enclosed.tagged
  rw [tagMarks, Block.spans_of_front absent] at tagged
  refine ⟨?_, Pattern.seek?_of_absent masked, nests_map_maskChar named enclosed.nested tagged, ?_⟩
  · exact Pattern.seek?_of_absent
      (Pattern.absent_map Tag.capital_map_maskChar (Pattern.absent_of_seek? enclosed.uncapital))
  · rw [tagMarks, Block.spans_of_front masked, ← tagMarksFrom, tagMarksFrom_map_maskChar]
    intro mark member
    obtain ⟨other, listed, rfl⟩ := List.mem_map.1 member
    exact (tagged other listed).map_maskChar

end Nested

end Fetch

end ComponentPages
