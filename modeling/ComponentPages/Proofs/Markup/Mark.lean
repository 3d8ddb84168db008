import ComponentPages.Proofs.Markup.Head

/-!
Searches for tags in printed pieces: for the next component tag, for an element that fetches, and for the closing
tag that matches an opening one.
-/
namespace ComponentPages

theorem covered_nil (offset : Nat) : covered [] offset = false := rfl

namespace Piece

/-- The name of a component, for a tag of one. -/
def component? : Piece → Option Text
  | .opening name _ _ | .closing name => if isPascalCase name then some name else none
  | _ => none

theorem name_eq {name : Text} (named : isTagName name = true) :
    ∃ c rest, name = c :: rest ∧ c ≠ '/' ∧ c ≠ '<' ∧
      (if isPascalCase name then c.isUpper = true ∧ ∀ d ∈ rest, d.isAlphanum = true
        else c.isLower = true ∧ ∀ d ∈ rest, d.isAlphanum = true ∨ d = '-') := by
  obtain ⟨c, rest, rfl, letter, parts⟩ := isTagNamePart_of_isTagName named
  refine ⟨c, rest, rfl, ?_, ?_, ?_⟩
  · exact ne_of_isTagNamePart (parts c List.mem_cons_self) (by decide)
  · exact ne_of_isTagNamePart (parts c List.mem_cons_self) (by decide)
  · split
    · next pascal =>
      simp only [isPascalCase, Bool.and_eq_true, List.all_eq_true] at pascal
      exact pascal
    · next other =>
      simp only [isTagName, Bool.and_eq_true, Bool.or_eq_true, other, Bool.false_eq_true, false_or] at named
      have element := named.1
      simp only [isElementName, Bool.and_eq_true, List.all_eq_true, Bool.or_eq_true, beq_iff_eq] at element
      refine ⟨element.1, ?_⟩
      intro d member
      rcases element.2 d member with (lower | digit) | hyphen
      · exact .inl (by simp [Char.isAlphanum, Char.isAlpha, lower])
      · exact .inl (by simp [Char.isAlphanum, digit])
      · exact .inr hyphen

end Piece

theorem not_isLower_of_isUpper {c : Char} (upper : c.isUpper = true) : c.isLower = false := by
  simp only [Char.isUpper, Char.isLower, decide_eq_true_eq, Bool.and_eq_false_iff, decide_eq_false_iff_not,
    UInt32.le_iff_toNat_le, ge_iff_le] at *
  simp at *
  omega

theorem not_isUpper_of_isLower {c : Char} (lower : c.isLower = true) : c.isUpper = false := by
  cases upper : c.isUpper with
  | false => rfl
  | true =>
    rw [not_isLower_of_isUpper upper] at lower
    cases lower

/-- What follows the name of an opening tag ends it. -/
theorem nameEnds_printHead (mentions : List Mention) (closed : Bool) (rest : Text) :
    Tag.nameEnds (printHead mentions closed ++ '>' :: rest) = true := by
  obtain ⟨c, more, whole, rfl | rfl⟩ := Block.printHead_begins mentions closed rest
  · rw [whole]
    rfl
  · rw [whole]
    rfl

namespace ComponentTag

theorem marksFrom_free {piece : Text} (free : ∀ c ∈ piece, c ≠ '<') (offset : Nat) (rest : Text) :
    marksFrom [] offset (piece ++ rest) = marksFrom [] (offset + piece.length) rest := by
  induction piece generalizing offset with
  | nil => rfl
  | cons c piece ih =>
    have unmarked : mark? offset (c :: (piece ++ rest)) = none := by
      unfold mark?
      split
      · next same => exact absurd (List.cons.inj same).1 (free c List.mem_cons_self)
      · next same => exact absurd (List.cons.inj same).1 (free c List.mem_cons_self)
      · rfl
    rw [List.cons_append, marksFrom, covered_nil, if_neg Bool.false_ne_true, unmarked]
    dsimp only [Option.filter]
    rw [ih fun d member => free d (List.mem_cons_of_mem c member), List.length_cons, Nat.add_right_comm,
      Nat.add_assoc]

/-- The name of a component is read whole. -/
theorem named?_append {name : Text} (pascal : isPascalCase name = true) (offset : Nat) (closing : Bool) {c : Char}
    (ends : c.isAlphanum = false) (rest : Text) :
    named? offset closing (name ++ c :: rest) = some ⟨offset, closing, name, c :: rest⟩ := by
  cases name with
  | nil => cases pascal
  | cons d tail =>
    simp only [isPascalCase, Bool.and_eq_true, List.all_eq_true] at pascal
    obtain ⟨taken, left⟩ := Text.takeWhile_append_cons pascal.2 ends rest
    rw [List.cons_append, named?, if_pos pascal.1, taken, left]

theorem mark?_opening {name : Text} {mentions : List Mention} {closed : Bool} (named : isTagName name = true)
    (offset : Nat) (rest : Text) :
    mark? offset ((Piece.opening name mentions closed).print ++ rest) =
      if isPascalCase name then some ⟨offset, false, name, printHead mentions closed ++ '>' :: rest⟩ else none := by
  obtain ⟨c, tail, rfl, noSlash, -, shape⟩ := Piece.name_eq named
  have whole : (Piece.opening (c :: tail) mentions closed).print ++ rest =
      '<' :: c :: (tail ++ (printHead mentions closed ++ '>' :: rest)) := by simp [Piece.print]
  rw [whole, mark?]
  · split
    · next pascal =>
      obtain ⟨d, more, head, space⟩ := Block.printHead_begins mentions closed rest
      have ends : d.isAlphanum = false := by rcases space with rfl | rfl <;> decide
      rw [head, ← List.cons_append]
      exact named?_append pascal offset false ends more
    · next other =>
      rw [if_neg other] at shape
      rw [named?, not_isUpper_of_isLower shape.1, if_neg Bool.false_ne_true]
  · intro more same
    exact noSlash (List.cons.inj same).1

theorem mark?_closing {name : Text} (named : isTagName name = true) (offset : Nat) (rest : Text) :
    mark? offset ((Piece.closing name).print ++ rest) =
      if isPascalCase name then some ⟨offset, true, name, '>' :: rest⟩ else none := by
  obtain ⟨c, tail, rfl, -, -, shape⟩ := Piece.name_eq named
  have whole : (Piece.closing (c :: tail)).print ++ rest = '<' :: '/' :: (c :: tail ++ '>' :: rest) := by
    simp [Piece.print]
  rw [whole, mark?]
  split
  · next pascal => exact named?_append pascal offset true (by decide) rest
  · next other =>
    rw [if_neg other] at shape
    rw [List.cons_append, named?, not_isUpper_of_isLower shape.1, if_neg Bool.false_ne_true]

/-- A tag whose front is no mark is passed over. -/
theorem marksFrom_front {piece : Piece} (sound : piece.isSound = true) {offset : Nat} {rest : Text}
    (front : piece.isTag = true → mark? offset (piece.print ++ rest) = none) :
    marksFrom [] offset (piece.print ++ rest) = marksFrom [] (offset + piece.print.length) rest := by
  rcases Piece.print_front sound with free | ⟨tail, whole, free⟩
  · exact marksFrom_free free offset rest
  · have unmarked := front (Piece.isTag_of_print sound whole)
    rw [whole, List.cons_append] at unmarked ⊢
    rw [marksFrom, covered_nil, if_neg Bool.false_ne_true, unmarked]
    dsimp only [Option.filter]
    rw [marksFrom_free free, List.length_cons, Nat.add_right_comm, Nat.add_assoc]

/-- Everything but the tags of components is passed over. -/
theorem marksFrom_plain {pieces : List Piece} (sound : ∀ piece ∈ pieces, piece.isSound = true)
    (plain : ∀ piece ∈ pieces, piece.component? = none) (offset : Nat) (rest : Text) :
    marksFrom [] offset (printPieces pieces ++ rest) = marksFrom [] (offset + (printPieces pieces).length) rest := by
  induction pieces generalizing offset with
  | nil => rfl
  | cons piece pieces ih =>
    have front : piece.isTag = true → mark? offset (piece.print ++ (printPieces pieces ++ rest)) = none := by
      intro tag
      have pieceSound := sound piece List.mem_cons_self
      have piecePlain := plain piece List.mem_cons_self
      cases piece with
      | text words => cases tag
      | placeholder inner => cases tag
      | opening name mentions closed =>
        simp only [Piece.isSound, Bool.and_eq_true] at pieceSound
        rw [mark?_opening pieceSound.1.1]
        rw [Piece.component?] at piecePlain
        split at piecePlain
        · cases piecePlain
        · next other => rw [if_neg other]
      | closing name =>
        rw [mark?_closing pieceSound]
        rw [Piece.component?] at piecePlain
        split at piecePlain
        · cases piecePlain
        · next other => rw [if_neg other]
    rw [printPieces_cons, List.append_assoc, marksFrom_front (sound piece List.mem_cons_self) front,
      ih (fun other member => sound other (List.mem_cons_of_mem piece member))
        (fun other member => plain other (List.mem_cons_of_mem piece member)), List.length_append, Nat.add_assoc]

theorem marksFrom_component {name : Text} (named : isTagName name = true) (mentions : List Mention) (closed : Bool)
    (pascal : isPascalCase name = true) (offset : Nat) (rest : Text) :
    ∃ others, marksFrom [] offset ((Piece.opening name mentions closed).print ++ rest) =
      ⟨offset, false, name, printHead mentions closed ++ '>' :: rest⟩ :: others := by
  have marked : mark? offset ((Piece.opening name mentions closed).print ++ rest) = _ := mark?_opening named offset rest
  rw [if_pos pascal] at marked
  have counts : Mark.counts ⟨offset, false, name, printHead mentions closed ++ '>' :: rest⟩ = true := by
    obtain ⟨c, more, head, rfl | rfl⟩ := Block.printHead_begins mentions closed rest
    · rw [head]
      rfl
    · rw [head]
      rfl
  have whole : (Piece.opening name mentions closed).print ++ rest =
      '<' :: (name ++ (printHead mentions closed ++ '>' :: rest)) := by simp [Piece.print]
  rw [whole] at marked ⊢
  refine ⟨marksFrom [] (offset + 1) (name ++ (printHead mentions closed ++ '>' :: rest)), ?_⟩
  rw [marksFrom, covered_nil, if_neg Bool.false_ne_true, marked, Option.filter_some, if_pos counts]

/-- Among pieces without tags of components the search finds nothing. -/
theorem next?_of_plain {before after : List Piece} (sound : ∀ piece ∈ before ++ after, piece.isSound = true)
    (plain : ∀ piece ∈ after, piece.component? = none) :
    next? (printPieces (before ++ after)) (printPieces before).length = .ok none := by
  have afterSound : ∀ piece ∈ after, piece.isSound = true :=
    fun piece member => sound piece (List.mem_append_right before member)
  have marked := marksFrom_plain afterSound plain (printPieces before).length []
  rw [List.append_nil, marksFrom] at marked
  rw [next?, marks, Block.spans_printPieces sound, printPieces_append, List.drop_left, marked]
  rfl

/-- The search stops at the first component tag. -/
theorem next?_of_component {before plains after : List Piece} {name : Text} {mentions : List Mention} {closed : Bool}
    (sound : ∀ piece ∈ before ++ (plains ++ .opening name mentions closed :: after), piece.isSound = true)
    (plain : ∀ piece ∈ plains, piece.component? = none) (pascal : isPascalCase name = true) :
    next? (printPieces (before ++ (plains ++ .opening name mentions closed :: after))) (printPieces before).length =
      (ofMark (printPieces (before ++ (plains ++ .opening name mentions closed :: after)))
        ⟨(printPieces (before ++ plains)).length, false, name,
          printHead mentions closed ++ '>' :: printPieces after⟩).map some := by
  have plainsSound : ∀ piece ∈ plains, piece.isSound = true :=
    fun piece member => sound piece (by simp [member])
  have tagSound : (Piece.opening name mentions closed).isSound = true := sound _ (by simp)
  simp only [Piece.isSound, Bool.and_eq_true] at tagSound
  obtain ⟨others, marked⟩ := marksFrom_component tagSound.1.1 mentions closed pascal
    (printPieces (before ++ plains)).length (printPieces after)
  have skipped := marksFrom_plain plainsSound plain (printPieces before).length
    ((Piece.opening name mentions closed).print ++ printPieces after)
  rw [← List.length_append, ← printPieces_append, marked] at skipped
  rw [next?, marks, Block.spans_printPieces sound, printPieces_append before, List.drop_left,
    printPieces_append plains, printPieces_cons, skipped]
  rfl

end ComponentTag

namespace Fetch

/-- The search for elements goes by lower-case names. -/
def elementMark? : Nat → Text → Option Mark := mark? Char.isLower fun c => c.isAlphanum || c == '-'

def elementMarksFrom : Nat → Text → List Mark := marksFrom Char.isLower (fun c => c.isAlphanum || c == '-') []

theorem elementMarksFrom_cons (offset : Nat) (c : Char) (text : Text) :
    elementMarksFrom offset (c :: text) =
      (elementMark? offset (c :: text)).toList ++ elementMarksFrom (offset + 1) text := by
  rw [elementMarksFrom, marksFrom, covered_nil, if_neg Bool.false_ne_true, elementMark?]
  split
  · next mark found => rw [found]; rfl
  · next found => rw [found]; rfl

theorem elementMark?_of_ne {c : Char} (other : c ≠ '<') (offset : Nat) (text : Text) :
    elementMark? offset (c :: text) = none := by
  unfold elementMark? mark?
  split
  · next same => exact absurd (List.cons.inj same).1 other
  · rfl

theorem elementMarksFrom_free {piece : Text} (free : ∀ c ∈ piece, c ≠ '<') (offset : Nat) (rest : Text) :
    elementMarksFrom offset (piece ++ rest) = elementMarksFrom (offset + piece.length) rest := by
  induction piece generalizing offset with
  | nil => rfl
  | cons c piece ih =>
    rw [List.cons_append, elementMarksFrom_cons, elementMark?_of_ne (free c List.mem_cons_self), Option.toList_none,
      List.nil_append, ih fun d member => free d (List.mem_cons_of_mem c member), List.length_cons,
      Nat.add_right_comm, Nat.add_assoc]

theorem elementMark?_opening {name : Text} {mentions : List Mention} {closed : Bool} (named : isTagName name = true)
    (offset : Nat) (rest : Text) :
    elementMark? offset ((Piece.opening name mentions closed).print ++ rest) =
      if isPascalCase name then none else some ⟨offset, name, printHead mentions closed ++ '>' :: rest⟩ := by
  obtain ⟨c, tail, rfl, -, -, shape⟩ := Piece.name_eq named
  have whole : (Piece.opening (c :: tail) mentions closed).print ++ rest =
      '<' :: c :: (tail ++ (printHead mentions closed ++ '>' :: rest)) := by simp [Piece.print]
  rw [whole, elementMark?, mark?]
  by_cases pascal : isPascalCase (c :: tail) = true
  · rw [if_pos pascal] at shape ⊢
    rw [not_isLower_of_isUpper shape.1, Bool.false_and, if_neg Bool.false_ne_true]
  · rw [if_neg pascal] at shape ⊢
    have parts : ∀ d ∈ tail, (d.isAlphanum || d == '-') = true := by
      intro d member
      rcases shape.2 d member with alphanumeric | rfl
      · rw [alphanumeric, Bool.true_or]
      · decide
    obtain ⟨d, more, head, space⟩ := Block.printHead_begins mentions closed rest
    have ends : (d.isAlphanum || d == '-') = false := by rcases space with rfl | rfl <;> decide
    obtain ⟨taken, dropped⟩ := Text.takeWhile_append_cons parts ends more
    have nameEnds := nameEnds_printHead mentions closed rest
    rw [head] at nameEnds ⊢
    rw [dropped, taken, shape.1, nameEnds, Bool.true_and, if_pos rfl]

theorem elementMark?_closing (name : Text) (offset : Nat) (rest : Text) :
    elementMark? offset ((Piece.closing name).print ++ rest) = none := by
  simp [elementMark?, mark?, Piece.print, Char.isLower]

theorem request?_printHead {mentions : List Mention} (sound : ∀ mention ∈ mentions, mention.isSound = true)
    (static : ∀ mention ∈ mentions, mention.isStatic = true) (closed : Bool) :
    request? (printHead mentions closed) = none := by
  rw [request?, Attribute.tokenize_printHead sound, Attribute.find?, List.find?_eq_none.2]
  · rfl
  · intro attr member
    obtain ⟨mention, listed, rfl⟩ := List.mem_map.1 member
    have quiet := static mention listed
    simp only [Mention.isStatic, Bool.and_eq_true, bne_iff_ne] at quiet
    intro same
    exact quiet.2 (of_decide_eq_true same)

/-- No element among sound pieces fetches. -/
theorem siteOf?_elementMarksFrom_append {pieces : List Piece} (sound : ∀ piece ∈ pieces, piece.isSound = true)
    (offset : Nat) (rest : Text) :
    siteOf? (elementMarksFrom offset (printPieces pieces ++ rest)) =
      siteOf? (elementMarksFrom (offset + (printPieces pieces).length) rest) := by
  induction pieces generalizing offset with
  | nil => rfl
  | cons piece pieces ih =>
    have later := fun place => ih (fun other member => sound other (List.mem_cons_of_mem piece member)) place
    have pieceSound := sound piece List.mem_cons_self
    rw [printPieces_cons, List.append_assoc, List.length_append, ← Nat.add_assoc]
    rcases Piece.print_front pieceSound with free | ⟨tail, whole, free⟩
    · rw [elementMarksFrom_free free]
      exact later _
    · have unfolded : elementMarksFrom offset (piece.print ++ (printPieces pieces ++ rest)) =
          (elementMark? offset (piece.print ++ (printPieces pieces ++ rest))).toList ++
            elementMarksFrom (offset + piece.print.length) (printPieces pieces ++ rest) := by
        rw [whole, List.cons_append, elementMarksFrom_cons, elementMarksFrom_free free, List.length_cons,
          Nat.add_assoc, Nat.add_comm 1]
      rw [unfolded]
      cases piece with
      | text words => cases Piece.isTag_of_print pieceSound whole
      | placeholder inner => cases Piece.isTag_of_print pieceSound whole
      | closing name =>
        rw [elementMark?_closing]
        exact later _
      | opening name mentions closed =>
        simp only [Piece.isSound, Bool.and_eq_true, List.all_eq_true, Bool.or_eq_true] at pieceSound
        obtain ⟨⟨named, mentionsSound⟩, static⟩ := pieceSound
        rw [elementMark?_opening named]
        split
        · exact later _
        · next other =>
          have quiet := request?_printHead mentionsSound (static.resolve_left other) closed
          rw [Option.toList_some, List.singleton_append, siteOf?, TagHead.read?_printHead mentionsSound closed]
          dsimp only
          rw [quiet, Option.isSome_none, if_neg Bool.false_ne_true]
          exact later _

theorem siteOf?_elementMarksFrom {pieces : List Piece} (sound : ∀ piece ∈ pieces, piece.isSound = true)
    (offset : Nat) : siteOf? (elementMarksFrom offset (printPieces pieces)) = none := by
  have whole := siteOf?_elementMarksFrom_append sound offset []
  rw [List.append_nil] at whole
  rw [whole]
  rfl

theorem next?_printPieces {pieces : List Piece} (sound : ∀ piece ∈ pieces, piece.isSound = true) :
    next? (printPieces pieces) 0 = none := by
  rw [next?, elementMarks, Block.spans_printPieces sound, List.drop_zero]
  exact siteOf?_elementMarksFrom sound 0

end Fetch

namespace Tag

theorem closeFrom?_passes {name piece rest : Text} (passes : Pattern.Passes (named? name) piece rest)
    (depth offset : Nat) :
    closeFrom? [] name depth offset (piece ++ rest) = closeFrom? [] name depth (offset + piece.length) rest := by
  induction piece generalizing offset with
  | nil => rfl
  | cons c piece ih =>
    obtain ⟨here, later⟩ := Pattern.passes_cons_iff.1 passes
    rw [List.cons_append] at here ⊢
    rw [closeFrom?, covered_nil, if_neg Bool.false_ne_true, here]
    dsimp only
    rw [ih later, List.length_cons, Nat.add_right_comm, Nat.add_assoc]

theorem stops_of_isSlugPart {c : Char} (part : isSlugPart c = true) : nameEnds [c] = false := by
  have foreign {d : Char} (other : isSlugPart d = false) : c ≠ d := by
    rintro rfl
    rw [part] at other
    cases other
  have solid : isBlank c = false := by
    by_contra blank
    rw [isSlugPart_of_isBlank (Bool.eq_true_of_not_eq_false blank)] at part
    cases part
  simp [nameEnds, solid, foreign (d := '/') (by decide), foreign (d := '>') (by decide)]

/-- A name is found in front of what may follow one only if it is the whole name there. -/
theorem after?_of_parts {name other : Text} (parts : ∀ c ∈ name, isSlugPart c = true)
    (otherParts : ∀ c ∈ other, isSlugPart c = true) {c : Char} (ends : nameEnds [c] = true) (rest : Text) :
    (Text.after? name (other ++ c :: rest)).filter nameEnds = if other = name then some (c :: rest) else none := by
  by_cases same : other = name
  · rw [if_pos same, same, Text.after?_append, Option.filter_some, if_pos]
    simpa [nameEnds] using ends
  · rw [if_neg same]
    cases found : Text.after? name (other ++ c :: rest) with
    | none => rfl
    | some after =>
      rcases List.append_eq_append_iff.1 (Text.eq_of_after? found) with ⟨gap, longer, remains⟩ | ⟨gap, longer, remains⟩
      · cases gap with
        | nil => exact absurd (by rw [longer, List.append_nil]) same
        | cons d gap =>
          obtain rfl := (List.cons.inj remains).1
          rw [stops_of_isSlugPart (parts c (by rw [longer]; simp))] at ends
          cases ends
      · cases gap with
        | nil => exact absurd (by rw [longer, List.append_nil]) same
        | cons d gap =>
          have stops : nameEnds (d :: gap ++ c :: rest) = false :=
            stops_of_isSlugPart (otherParts d (by rw [longer]; simp))
          rw [remains, Option.filter_some, stops, if_neg Bool.false_ne_true]

/-- A name that a search for a closing tag takes for what it is. -/
def IsName (name : Text) : Prop := name ≠ [] ∧ ∀ c ∈ name, isTagNamePart c = true

theorem isName_of_isTagName {name : Text} (named : isTagName name = true) : IsName name := by
  obtain ⟨c, tail, rfl, -, parts⟩ := isTagNamePart_of_isTagName named
  exact ⟨List.cons_ne_nil c tail, parts⟩

/-- The names of elements in general: word characters and hyphens. -/
def IsSlug (name : Text) : Prop := name ≠ [] ∧ ∀ c ∈ name, isSlugPart c = true

theorem IsName.isSlug {name : Text} (named : IsName name) : IsSlug name :=
  ⟨named.1, fun c member => isSlugPart_of_isTagNamePart (named.2 c member)⟩

theorem IsSlug.ne_of_mem {name : Text} (named : IsSlug name) {c d : Char} (member : c ∈ name)
    (foreign : isSlugPart d = false) : c ≠ d := by
  rintro rfl
  rw [named.2 c member] at foreign
  cases foreign

theorem IsSlug.free {name : Text} (named : IsSlug name) : ∀ c ∈ name, c ≠ '<' :=
  fun _ member => named.ne_of_mem member (by decide)

theorem IsSlug.name_eq {name : Text} (named : IsSlug name) : ∃ c tail, name = c :: tail ∧ c ≠ '/' := by
  obtain ⟨c, tail, rfl⟩ := List.exists_cons_of_ne_nil named.1
  exact ⟨c, tail, rfl, named.ne_of_mem List.mem_cons_self (by decide)⟩

theorem named?_of_ne (name : Text) (c : Char) (text : Text) (other : c ≠ '<') : named? name (c :: text) = none := by
  simp [named?, Text.after?, other.symm]

theorem named?_opening {name other : Text} (named : isTagName name = true) (otherNamed : isTagName other = true)
    (mentions : List Mention) (closed : Bool) (rest : Text) :
    named? name ((Piece.opening other mentions closed).print ++ rest) =
      if other = name then some (false, printHead mentions closed ++ '>' :: rest) else none := by
  obtain ⟨c, tail, split, noSlash, -, -⟩ := Piece.name_eq otherNamed
  have whole : (Piece.opening other mentions closed).print ++ rest =
      '<' :: (other ++ (printHead mentions closed ++ '>' :: rest)) := by simp [Piece.print]
  obtain ⟨d, more, head, space⟩ := Block.printHead_begins mentions closed rest
  have ends : nameEnds [d] = true := by rcases space with rfl | rfl <;> decide
  have noClosing : Text.after? (['<', '/'] ++ name) ('<' :: (other ++ d :: more)) = none := by
    simp [Text.after?, split, noSlash.symm]
  have opening : Text.after? ('<' :: name) ('<' :: (other ++ d :: more)) = Text.after? name (other ++ d :: more) := by
    rw [Text.after?, if_pos rfl]
  rw [whole, head, Tag.named?, noClosing, opening,
    after?_of_parts (isName_of_isTagName named).isSlug.2 (isName_of_isTagName otherNamed).isSlug.2 ends]
  split <;> rfl

/-- A closing tag, with white space behind the name. -/
def closeTag (name gap : Text) : Text := '<' :: '/' :: name ++ gap ++ ['>']

theorem named?_closeTag {name other : Text} (named : IsSlug name) (otherNamed : IsSlug other) {gap : Text}
    (space : IsSpace gap) (rest : Text) :
    named? name (closeTag other gap ++ rest) = if other = name then some (true, gap ++ '>' :: rest) else none := by
  obtain ⟨c, tail, split, noSlash⟩ := named.name_eq
  obtain ⟨d, more, behind, ends⟩ : ∃ d more, gap ++ '>' :: rest = d :: more ∧ nameEnds [d] = true := by
    cases gap with
    | nil => exact ⟨'>', rest, rfl, by decide⟩
    | cons d gap => exact ⟨d, gap ++ '>' :: rest, rfl, by simp [nameEnds, space d List.mem_cons_self]⟩
  have whole : closeTag other gap ++ rest = '<' :: '/' :: (other ++ d :: more) := by
    rw [← behind]
    simp [closeTag]
  have closing : Text.after? (['<', '/'] ++ name) ('<' :: '/' :: (other ++ d :: more)) =
      Text.after? name (other ++ d :: more) := by
    simp [Text.after?]
  have noOpening : Text.after? ('<' :: name) ('<' :: '/' :: (other ++ d :: more)) = none := by
    simp [Text.after?, split, noSlash]
  rw [whole, Tag.named?, closing, noOpening, after?_of_parts named.2 otherNamed.2 ends, behind]
  split <;> rfl

theorem free_closeTag {name : Text} (free : ∀ c ∈ name, c ≠ '<') {gap : Text} (space : IsSpace gap) :
    ∀ c ∈ '/' :: name ++ gap ++ ['>'], c ≠ '<' := by
  intro c member
  simp only [List.cons_append, List.mem_cons, List.mem_append, List.not_mem_nil, or_false] at member
  rcases member with rfl | (inName | inGap) | rfl
  · decide
  · exact free c inName
  · rintro rfl
    exact absurd (space '<' inGap) (by decide)
  · decide

/-- No tag begins where no angle bracket stands. -/
theorem closeFrom?_free {piece : Text} (free : ∀ c ∈ piece, c ≠ '<') (name : Text) (depth offset : Nat) (rest : Text) :
    closeFrom? [] name depth offset (piece ++ rest) = closeFrom? [] name depth (offset + piece.length) rest :=
  closeFrom?_passes (Pattern.passes_of_begins rest fun c member text => named?_of_ne name c text (free c member)) depth offset

/-- After the front of a tag the search goes on behind the tag. -/
theorem closeFrom?_behind {piece : Piece} (sound : piece.isSound = true) {tail : Text} (whole : piece.print = '<' :: tail)
    (name : Text) (depth offset : Nat) (rest : Text) :
    closeFrom? [] name depth (offset + 1) (tail ++ rest) =
      closeFrom? [] name depth (offset + piece.print.length) rest := by
  rcases Piece.print_front sound with free | ⟨other, same, free⟩
  · exact absurd rfl (free '<' (by rw [whole]; exact List.mem_cons_self))
  · obtain rfl : tail = other := by
      rw [whole] at same
      exact (List.cons.inj same).2
    rw [closeFrom?_free free, whole, List.length_cons, Nat.add_right_comm, Nat.add_assoc]

theorem closeFrom?_closeTag {name other : Text} (named : IsSlug name) (otherNamed : IsSlug other) {gap : Text}
    (space : IsSpace gap) (depth offset : Nat) (rest : Text) :
    closeFrom? [] name depth offset (closeTag other gap ++ rest) =
      if other = name then
        if depth ≤ 1 then some ⟨offset, offset + (closeTag other gap).length⟩
        else closeFrom? [] name (depth - 1) (offset + (closeTag other gap).length) rest
      else closeFrom? [] name depth (offset + (closeTag other gap).length) rest := by
  have front := named?_closeTag named otherNamed space rest
  have behind (depth : Nat) : closeFrom? [] name depth (offset + 1) ('/' :: other ++ gap ++ ['>'] ++ rest) =
      closeFrom? [] name depth (offset + (closeTag other gap).length) rest := by
    rw [closeFrom?_free (free_closeTag otherNamed.free space), Nat.add_assoc, Nat.add_comm 1]
    rfl
  have whole : closeTag other gap ++ rest = '<' :: ('/' :: other ++ gap ++ ['>'] ++ rest) := by simp [closeTag]
  rw [whole] at front ⊢
  rw [closeFrom?, covered_nil, if_neg Bool.false_ne_true, front]
  by_cases same : other = name
  · have angleless : ∀ c ∈ gap, c ≠ '>' := by
      rintro c member rfl
      exact absurd (space '>' member) (by decide)
    have size : offset + name.length + gap.length + 3 = offset + (closeTag other gap).length := by
      rw [same]
      simp only [closeTag, List.length_append, List.length_cons, List.length_nil]
      omega
    rw [if_pos same, if_pos same]
    dsimp only
    rw [Text.cut?_append angleless, behind]
    dsimp only
    rw [size]
  · rw [if_neg same, if_neg same]
    exact behind depth

theorem closeFrom?_closing {name other : Text} (named : IsName name) (otherNamed : IsName other) (depth offset : Nat)
    (rest : Text) :
    closeFrom? [] name depth offset ((Piece.closing other).print ++ rest) =
      if other = name then
        if depth ≤ 1 then some ⟨offset, offset + (Piece.closing other).print.length⟩
        else closeFrom? [] name (depth - 1) (offset + (Piece.closing other).print.length) rest
      else closeFrom? [] name depth (offset + (Piece.closing other).print.length) rest := by
  have whole : (Piece.closing other).print = closeTag other [] := by simp [Piece.print, closeTag]
  rw [whole]
  exact closeFrom?_closeTag named.isSlug otherNamed.isSlug (List.forall_mem_nil _) depth offset rest

theorem closeFrom?_opening {name other : Text} (named : isTagName name = true) {mentions : List Mention}
    {closed : Bool} (sound : (Piece.opening other mentions closed).isSound = true) (depth offset : Nat) (rest : Text) :
    closeFrom? [] name depth offset ((Piece.opening other mentions closed).print ++ rest) =
      closeFrom? [] name (if other = name ∧ closed = false then depth + 1 else depth)
        (offset + (Piece.opening other mentions closed).print.length) rest := by
  have parts := sound
  simp only [Piece.isSound, Bool.and_eq_true, List.all_eq_true] at parts
  have front := named?_opening named parts.1.1 mentions closed rest
  have behind := fun depth => @closeFrom?_behind _ sound (other ++ printHead mentions closed ++ ['>']) rfl name depth
    offset rest
  have whole : (Piece.opening other mentions closed).print ++ rest =
      '<' :: (other ++ printHead mentions closed ++ ['>'] ++ rest) := by simp [Piece.print]
  rw [whole] at front ⊢
  rw [closeFrom?, covered_nil, if_neg Bool.false_ne_true, front]
  by_cases same : other = name
  · rw [if_pos same]
    dsimp only
    rw [TagHead.read?_printHead parts.1.2]
    dsimp only
    rw [TagHead.closesItself_printHead parts.1.2]
    cases closed with
    | true => simpa using behind depth
    | false => simpa [same] using behind (depth + 1)
  · rw [if_neg same, if_neg fun both => same both.1]
    exact behind depth

/-- Pieces in which every tag that is opened is closed. -/
inductive Balanced : List Piece → Prop
  | nil : Balanced []
  | leaf {piece : Piece} (leaf : piece.isTag = false) : Balanced [piece]
  | closed {name : Text} {mentions : List Mention} : Balanced [.opening name mentions true]
  | element {name : Text} {mentions : List Mention} {inner : List Piece} (balanced : Balanced inner) :
    Balanced (.opening name mentions false :: inner ++ [.closing name])
  | append {first second : List Piece} (balanced : Balanced first) (next : Balanced second) :
    Balanced (first ++ second)

/-- Balanced pieces are passed over. -/
theorem closeFrom?_balanced {pieces : List Piece} (balanced : Balanced pieces)
    (sound : ∀ piece ∈ pieces, piece.isSound = true) {name : Text} (named : isTagName name = true) {depth : Nat}
    (inside : 1 ≤ depth) (offset : Nat) (rest : Text) :
    closeFrom? [] name depth offset (printPieces pieces ++ rest) =
      closeFrom? [] name depth (offset + (printPieces pieces).length) rest := by
  induction balanced generalizing depth offset rest with
  | nil => rfl
  | @leaf piece leaf =>
    have passes : Pattern.Passes (named? name) piece.print rest := by
      apply Piece.passes_print (named?_of_ne name) (sound piece List.mem_cons_self)
      intro tag
      rw [leaf] at tag
      cases tag
    rw [printPieces_cons, printPieces, List.flatMap_nil, List.append_nil]
    exact closeFrom?_passes passes depth offset
  | @closed other mentions =>
    have opening := closeFrom?_opening named (sound _ List.mem_cons_self) depth offset rest
    rw [printPieces_cons, printPieces, List.flatMap_nil, List.append_nil, opening, if_neg (by simp)]
  | @element other mentions inner balanced ih =>
    have innerSound : ∀ piece ∈ inner, piece.isSound = true := fun piece member => sound piece (by simp [member])
    have openingSound : (Piece.opening other mentions false).isSound = true := sound _ (by simp)
    have closingSound : (Piece.closing other).isSound = true := sound _ (by simp)
    have closes := fun depth offset => closeFrom?_closing (isName_of_isTagName named) (isName_of_isTagName closingSound)
      depth offset rest
    have split : printPieces (.opening other mentions false :: inner ++ [.closing other]) =
        (Piece.opening other mentions false).print ++ (printPieces inner ++ (Piece.closing other).print) := by
      simp [printPieces]
    rw [split, List.append_assoc, List.append_assoc, closeFrom?_opening named openingSound]
    by_cases same : other = name
    · rw [if_pos ⟨same, rfl⟩, ih innerSound (by omega), closes, if_pos same,
        if_neg (by omega), Nat.add_sub_cancel, List.length_append, List.length_append, Nat.add_assoc, Nat.add_assoc]
    · rw [if_neg fun both => same both.1, ih innerSound inside, closes, if_neg same,
        List.length_append, List.length_append, Nat.add_assoc, Nat.add_assoc]
  | @append first second balanced next ih nextIh =>
    have firstSound : ∀ piece ∈ first, piece.isSound = true := fun piece member => sound piece (by simp [member])
    have secondSound : ∀ piece ∈ second, piece.isSound = true := fun piece member => sound piece (by simp [member])
    rw [printPieces_append, List.append_assoc, ih firstSound inside, nextIh secondSound inside, List.length_append,
      Nat.add_assoc]

end Tag

namespace ComponentTag

/-- The tag of a component, with the children that are printed between its two ends. -/
def element (name : Text) (mentions : List Mention) (closed : Bool) (inner : List Piece) : List Piece :=
  .opening name mentions closed :: if closed then [] else inner ++ [.closing name]

theorem trim_dropLast_printHead (mentions : List Mention) :
    Text.trim (Text.trimRight (printHead mentions true)).dropLast = Text.trim (mentions.flatMap Mention.print) := by
  have ending : printHead mentions true = (mentions.flatMap Mention.print ++ [' ']) ++ ['/'] := by simp [printHead]
  have space : IsSpace [' '] := by
    intro c member
    rw [List.mem_singleton.1 member]
    decide
  rw [ending, Text.trimRight_concat_of_not_blank (by decide), List.dropLast_concat, Text.trim_append_of_space _ space]

theorem ofMark_element {name : Text} {mentions : List Mention} {closed : Bool} {inner : List Piece}
    (balanced : Tag.Balanced inner) {html : Text} (unblocked : Block.spans html = [])
    (sound : ∀ piece ∈ element name mentions closed inner, piece.isSound = true) (offset : Nat) (rest : Text) :
    ofMark html ⟨offset, false, name,
        printHead mentions closed ++ '>' :: (printPieces (element name mentions closed inner).tail ++ rest)⟩ =
      .ok ⟨offset, offset + (printPieces (element name mentions closed inner)).length, name, closed,
        Text.trim (mentions.flatMap Mention.print), if closed then [] else printPieces inner⟩ := by
  have openingSound : (Piece.opening name mentions closed).isSound = true := sound _ List.mem_cons_self
  simp only [Piece.isSound, Bool.and_eq_true, List.all_eq_true] at openingSound
  obtain ⟨⟨named, mentionsSound⟩, -⟩ := openingSound
  unfold ofMark
  dsimp only
  rw [TagHead.read?_printHead mentionsSound]
  dsimp only
  rw [TagHead.closesItself_printHead mentionsSound]
  cases closed with
  | true =>
    rw [if_pos rfl, trim_dropLast_printHead]
    simp [element, printPieces, Piece.print, Nat.add_comm, Nat.add_left_comm]
  | false =>
    have innerSound : ∀ piece ∈ inner, piece.isSound = true := fun piece member => sound piece (by simp [element, member])
    have tail : printPieces (element name mentions false inner).tail ++ rest =
        printPieces inner ++ ((Piece.closing name).print ++ rest) := by simp [element, printPieces]
    have closes := Tag.closeFrom?_balanced balanced innerSound named (Nat.le_refl 1)
      (offset + 1 + name.length + (printHead mentions false).length + 1) ((Piece.closing name).print ++ rest)
    have isName := Tag.isName_of_isTagName named
    rw [Tag.closeFrom?_closing isName isName, if_pos rfl, if_pos (Nat.le_refl 1)] at closes
    rw [if_neg Bool.false_ne_true, unblocked, tail, closes]
    have head : printHead mentions false = mentions.flatMap Mention.print := by simp [printHead]
    simp only [Nat.add_sub_cancel_left, List.take_left, if_neg Bool.false_ne_true, head]
    congr 2
    simp [element, printPieces, Piece.print, head]
    omega

/-- The search finds the first component, with what its tag holds and where it ends. -/
theorem next?_of_element {before plains after inner : List Piece} {name : Text} {mentions : List Mention} {closed : Bool}
    (sound : ∀ piece ∈ before ++ (plains ++ (element name mentions closed inner ++ after)), piece.isSound = true)
    (plain : ∀ piece ∈ plains, piece.component? = none) (pascal : isPascalCase name = true)
    (balanced : Tag.Balanced inner) :
    next? (printPieces (before ++ (plains ++ (element name mentions closed inner ++ after))))
        (printPieces before).length =
      .ok (some ⟨(printPieces (before ++ plains)).length,
        (printPieces (before ++ (plains ++ element name mentions closed inner))).length, name, closed,
        Text.trim (mentions.flatMap Mention.print), if closed then [] else printPieces inner⟩) := by
  have elementSound : ∀ piece ∈ element name mentions closed inner, piece.isSound = true :=
    fun piece member => sound piece (by simp [member])
  have found := @next?_of_component before plains ((element name mentions closed inner).tail ++ after) name mentions
    closed sound plain pascal
  have made := ofMark_element balanced (Block.spans_printPieces sound) elementSound
    (printPieces (before ++ plains)).length (printPieces after)
  rw [← printPieces_append] at made
  have whole : element name mentions closed inner ++ after =
      .opening name mentions closed :: ((element name mentions closed inner).tail ++ after) := rfl
  rw [whole] at made ⊢
  rw [found, made]
  simp only [Except.map, printPieces_append, List.length_append, Nat.add_assoc]

end ComponentTag

end ComponentPages
