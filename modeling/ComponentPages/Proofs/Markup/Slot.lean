import ComponentPages.Proofs.Markup.Meaning

/-!
Slots in printed trees. Injection finds exactly the slots of a template, and the children of a tag yield exactly
its fills.
-/
namespace ComponentPages

namespace Slot

/-- The name of a slot's tag is read in front of no other tag. -/
theorem not_after?_opening {name : Text} {mentions : List Mention} {closed : Bool} (named : isTagName name = true)
    (other : name ≠ "slot".toList) {rest after : Text}
    (found : Text.after? "<slot" ((Piece.opening name mentions closed).print ++ rest) = some after) :
    after.head?.any isBlank = false := by
  obtain ⟨-, -, -, -, parts⟩ := isTagNamePart_of_isTagName named
  have whole : (Piece.opening name mentions closed).print ++ rest =
      '<' :: (name ++ (printHead mentions closed ++ '>' :: rest)) := by simp [Piece.print]
  have split := Text.eq_of_after? found
  rw [whole] at split
  have behind : name ++ (printHead mentions closed ++ '>' :: rest) = "slot".toList ++ after := (List.cons.inj split).2
  rcases List.append_eq_append_iff.1 behind with ⟨gap, longer, remains⟩ | ⟨gap, longer, remains⟩
  · cases gap with
    | nil => exact absurd (by rw [longer, List.append_nil]) other
    | cons c gap =>
      obtain ⟨d, more, head, punctuation⟩ := Block.printHead_begins mentions closed rest
      rw [head] at remains
      obtain rfl := (List.cons.inj remains).1
      have member : d ∈ "slot".toList := by rw [longer]; simp
      rcases punctuation with rfl | rfl
      · exact absurd member (by decide)
      · exact absurd member (by decide)
  · cases gap with
    | nil => exact absurd (by rw [longer, List.append_nil]) other
    | cons c gap =>
      rw [remains]
      exact isBlank_of_isTagNamePart (parts c (by rw [longer]; simp))

theorem not_after?_closing (name rest : Text) : Text.after? "<slot" ((Piece.closing name).print ++ rest) = none := by
  simp [Piece.print, Text.after?]

/-! ### Slots of a template -/

theorem placeholder_of_ne (c : Char) (text : Text) (other : c ≠ '<') : placeholder (c :: text) = none := by
  simp [placeholder, Text.after?, other.symm]

theorem placeholder_opening {name : Text} {mentions : List Mention} {closed : Bool} (named : isTagName name = true)
    (other : name ≠ "slot".toList) (rest : Text) :
    placeholder ((Piece.opening name mentions closed).print ++ rest) = none := by
  rw [placeholder]
  cases found : Text.after? "<slot" ((Piece.opening name mentions closed).print ++ rest) with
  | none => rfl
  | some after =>
    have solid := not_after?_opening named other found
    simp [solid]

theorem placeholder_closing (name rest : Text) : placeholder ((Piece.closing name).print ++ rest) = none := by
  rw [placeholder, not_after?_closing]
  rfl

theorem run_slotName {name : Text} (named : isSlotName name = true) (rest : Text) :
    Pattern.run isSlugPart (name ++ '\'' :: rest) = some (name, '\'' :: rest) := by
  simp only [isSlotName, Bool.and_eq_true, bne_iff_ne, List.all_eq_true] at named
  exact Pattern.run_append named.1 (fun c member => (named.2 c member).1) rfl

/-- A slot is taken whole; the tag of a fill is no slot. -/
theorem placeholder_quoted (text : Text) :
    placeholder ("<slot name='" ++ text) = (do
      let (name, afterSlug) ← Pattern.run isSlugPart text
      let rest ← Text.after? "/>" (Text.trimLeft (← placeholder.unquote afterSlug))
      some (name, rest)) :=
  rfl

theorem placeholder_slot {name : Text} (named : isSlotName name = true) (closed : Bool) (rest : Text) :
    placeholder ((Piece.opening "slot" [slotMention name] closed).print ++ rest) =
      if closed then some (name, rest) else none := by
  let ending : Text := if closed then " />" else ">"
  have whole : (Piece.opening "slot" [slotMention name] closed).print ++ rest =
      "<slot name='" ++ (name ++ '\'' :: (ending ++ rest)) := by
    cases closed <;> simp [Piece.print, printHead, Mention.print, slotMention, Written.print, ending]
  rw [whole, placeholder_quoted, run_slotName named]
  cases closed <;> rfl

theorem normalize_printPieces {pieces : List Piece} (sound : ∀ piece ∈ pieces, piece.isSound = true) :
    normalize (printPieces pieces) = printPieces pieces := by
  refine Pattern.replace_of_absent (absent_doubled ?_ sound) _
  intro text single
  rw [marker, single]
  rfl

/-- In a piece other than a slot no slot begins. -/
theorem passes_placeholder {piece : Piece} (sound : piece.isSound = true) (slotted : piece.Slotted)
    (other : piece.isSlot = false) (rest : Text) : Pattern.Passes placeholder piece.print rest := by
  refine Piece.passes_print placeholder_of_ne sound ?_
  intro tag
  cases piece with
  | text words => cases tag
  | placeholder inner => cases tag
  | closing name => exact placeholder_closing name rest
  | opening name mentions closed =>
    by_cases slot : name = "slot".toList
    · subst slot
      obtain ⟨slotName, named, rfl⟩ := slotted mentions closed rfl
      rw [placeholder_slot named, if_neg]
      rintro rfl
      cases other
    · simp only [Piece.isSound, Bool.and_eq_true] at sound
      exact placeholder_opening sound.1.1 slot rest

/-- The fill of a slot is written in its place. -/
def writeSlot (slots : Bindings Tree) (piece : Piece) : Option (List Piece) :=
  match piece with
  | .opening name [⟨_, .constant _ slot⟩] closed =>
    if closed && name == "slot" then some ((slots.get? slot).getD .done).pieces else some [piece]
  | piece => some [piece]

theorem writeSlot_of_other {piece : Piece} (other : piece.isSlot = false) (slots : Bindings Tree) :
    writeSlot slots piece = some [piece] := by
  unfold writeSlot
  split
  · next name slot closed =>
    rw [if_neg]
    rw [Piece.isSlot] at other
    rw [other]
    exact Bool.false_ne_true
  · rfl

theorem replace_printPieces {slots : Bindings Tree} {pieces result : List Piece}
    (sound : ∀ piece ∈ pieces, piece.isSound = true ∧ piece.Slotted)
    (written : rewrite (writeSlot slots) pieces = some result) :
    Pattern.replace placeholder (fun name => ((slots.mapValues Tree.print).get? name).getD []) (printPieces pieces) =
      printPieces result := by
  induction pieces generalizing result with
  | nil =>
    cases written
    simp [printPieces, Pattern.replace, Pattern.segments]
  | cons piece pieces ih =>
    obtain ⟨pieceSound, slotted⟩ := sound piece List.mem_cons_self
    simp only [rewrite, Option.bind_eq_bind, Option.bind_eq_some_iff, Option.some.injEq] at written
    obtain ⟨first, here, others, later, rfl⟩ := written
    have rest := ih (fun other member => sound other (List.mem_cons_of_mem piece member)) later
    rw [printPieces_cons, printPieces_append]
    by_cases other : piece.isSlot = false
    · rw [writeSlot_of_other other] at here
      cases here
      rw [Pattern.replace_append (passes_placeholder pieceSound slotted other _), rest]
      simp [printPieces]
    · cases piece with
      | text | placeholder | closing => exact absurd rfl other
      | opening name mentions closed =>
        simp only [Piece.isSlot, Bool.not_eq_false, Bool.and_eq_true, beq_iff_eq] at other
        obtain ⟨rfl, rfl⟩ := other
        obtain ⟨slot, named, rfl⟩ := slotted mentions true rfl
        have takes := placeholder_slot named true (printPieces pieces)
        obtain rfl := Option.some.inj here
        rw [Pattern.replace_hit (by simp [Piece.print]) takes, rest, Bindings.get?_mapValues]
        cases slots.get? slot <;> rfl

/-- Injection puts the printed fills in place of the slots. -/
theorem inject_print {slots : Bindings Tree} {tree result : Tree} (sound : tree.isSound .template false = true)
    (filled : tree.replace (.slots slots) = some result) :
    inject tree.print (slots.mapValues Tree.print) = result.print := by
  have written := @Tree.pieces_replace (.slots slots) (writeSlot slots)
    (fun piece other _ => writeSlot_of_other other slots) (fun _ => rfl) (fun _ => rfl) (fun _ _ _ _ => rfl) _ _ _ sound
  rw [filled, Option.map_some] at written
  have normal : normalize tree.print = tree.print := normalize_printPieces (Tree.isSound_pieces sound)
  rw [inject, normal]
  exact replace_printPieces (Tree.sound_pieces sound) written.symm

/-! ### Fills among children -/

def closesSlot : Pattern Unit := Block.closing? (Text.after? "slot")

/-- Plain pieces close no slot. -/
theorem passes_closesSlot {pieces : List Piece} (sound : ∀ piece ∈ pieces, piece.isSound = true)
    (open_ : .closing "slot" ∉ pieces) (rest : Text) : Pattern.Passes closesSlot (printPieces pieces) rest := by
  induction pieces with
  | nil => exact Pattern.passes_nil closesSlot rest
  | cons piece pieces ih =>
    rw [printPieces_cons, Pattern.passes_append_iff]
    refine ⟨Piece.passes_print (Block.closing?_of_ne _) (sound piece List.mem_cons_self) ?_,
      ih (fun other member => sound other (List.mem_cons_of_mem piece member))
        (fun member => open_ (List.mem_cons_of_mem piece member))⟩
    intro tag
    have pieceSound := sound piece List.mem_cons_self
    unfold Block.closing?
    cases piece with
    | text words => cases tag
    | placeholder inner => cases tag
    | opening name mentions closed =>
      simp only [Piece.isSound, Bool.and_eq_true] at pieceSound
      obtain ⟨c, name, rfl, noSlash, -⟩ := Piece.name_eq pieceSound.1.1
      simp [Piece.print, Text.after?, noSlash.symm]
    | closing name =>
      have front : Text.after? "</" ((Piece.closing name).print ++ (printPieces pieces ++ rest)) =
          some (name ++ '>' :: (printPieces pieces ++ rest)) := by
        simp [Piece.print, Text.after?]
      rw [front, Option.bind_eq_bind, Option.bind_some]
      cases read : Text.after? "slot" (name ++ '>' :: (printPieces pieces ++ rest)) with
      | none => rfl
      | some after =>
        rw [Option.bind_some]
        cases ends : Text.after? ">" (Text.trimLeft after) with
        | none => rfl
        | some remainder =>
          have whole := Text.eq_of_after? read
          have same := Block.eq_of_ends pieceSound whole (by decide) (by rw [ends]; exact Option.some_ne_none remainder)
          subst same
          exact absurd List.mem_cons_self open_

theorem closing_not_mem {tree : Tree} (plain : tree.isSound .plain false = true) :
    Piece.closing "slot" ∉ tree.pieces := by
  induction tree with
  | done => simp [Tree.pieces]
  | text words rest ih =>
    simp only [Tree.isSound, Bool.and_eq_true] at plain
    intro member
    rcases List.mem_cons.1 member with words | inRest
    · cases words
    · exact ih plain.2 inRest
  | element name mentions body rest ihBody ih =>
    simp only [Tree.isSound, Bool.and_eq_true, bne_iff_ne] at plain
    intro member
    simp only [Tree.pieces, List.cons_append, List.mem_cons, List.mem_append] at member
    rcases member with opening | inBody | closing | inRest
    · cases opening
    · exact ihBody plain.1.2 inBody
    · exact plain.1.1.1.2 (Piece.closing.inj closing).symm
    · exact ih plain.2 inRest
  | placeholder | component | slot => simp [Tree.isSound, Vocabulary.plain] at plain
  | fill => cases plain

/-- The head of a fill's tag. -/
def fillHead (name : Text) : Text := "name='" ++ name ++ "'"

theorem fillHead_eq (name : Text) : fillHead name = "name='" ++ name ++ "'" := rfl

theorem fillHead_eq_trim {name : Text} (named : isSlotName name = true) :
    fillHead name = Text.trim ([slotMention name].flatMap Mention.print) := by
  have sound : ∀ mention ∈ [slotMention name], mention.isSound = true := by
    intro mention member
    rw [List.mem_singleton.1 member]
    exact Tree.isSound_slotMention named
  rw [Text.trim_of_trimRight (TagHead.trimRight_print sound)]
  simp [fillHead_eq, Mention.print, slotMention, Written.print]
  rfl

theorem usage_fill {name : Text} (named : isSlotName name = true) {body : Tree}
    (plain : body.isSound .plain false = true) (rest : Text) :
    usage ((Piece.opening "slot" [slotMention name] false).print ++
        (body.print ++ ((Piece.closing "slot").print ++ rest))) =
      some (⟨fillHead name, body.print⟩, rest) := by
  have whole (after : Text) : (Piece.opening "slot" [slotMention name] false).print ++ after =
      "<slot" ++ (' ' :: (fillHead name ++ '>' :: after)) := by
    simp [Piece.print, printHead, Mention.print, slotMention, Written.print, fillHead_eq]
  have free : ∀ c ∈ fillHead name, c ≠ '>' := by
    simp only [isSlotName, Bool.and_eq_true, List.all_eq_true] at named
    intro c member
    rcases List.mem_append.1 member with front | last
    · rcases List.mem_append.1 front with word | inName
      · rintro rfl
        exact absurd word (by decide)
      · rintro rfl
        exact absurd (named.2 '>' inName).2 (by decide)
    · rintro rfl
      exact absurd last (by decide)
  have ended : Text.trimRight (fillHead name) = fillHead name :=
    Text.trimRight_concat_of_not_blank (by decide) ("name='" ++ name)
  have last : (fillHead name).getLast? = some '\'' := List.getLast?_concat
  have found : Pattern.seek? closesSlot (body.print ++ ((Piece.closing "slot").print ++ rest)) =
      some (body.print, (), rest) := by
    have closes : Pattern.seek? closesSlot ((Piece.closing "slot").print ++ rest) = some ([], (), rest) := rfl
    have passes := passes_closesSlot (Tree.isSound_pieces plain) (closing_not_mem plain)
      ((Piece.closing "slot").print ++ rest)
    have skipped := Pattern.seek?_append passes
    rw [closes, Option.map_some] at skipped
    dsimp only at skipped
    rwa [List.append_nil] at skipped
  rw [whole, usage, Text.after?_append]
  change (Text.cut? '>' (fillHead name ++ '>' :: _) >>= _) = _
  rw [Text.cut?_append free]
  dsimp only [Option.bind_eq_bind, Option.bind_some]
  rw [ended, last]
  change (Pattern.seek? closesSlot _ >>= _) = _
  rw [found]
  rfl

theorem scan_fillHead {name : Text} (named : isSlotName name = true) :
    Attribute.tokenize (fillHead name) = [(slotMention name).scanned] := by
  rw [fillHead_eq_trim named, Attribute.tokenize_trim]
  · rfl
  · intro mention member
    rw [List.mem_singleton.1 member]
    exact Tree.isSound_slotMention named

theorem name_of_fillHead {name : Text} (named : isSlotName name = true) (body : Text) :
    Usage.name ⟨fillHead name, body⟩ = name := by
  rw [Usage.name, Attribute.table, scan_fillHead named]
  rfl

theorem markup_of_fillHead {name : Text} (named : isSlotName name = true) (body : Text) :
    Usage.markup ⟨fillHead name, body⟩ = body := by
  rw [Usage.markup, Usage.tag, Attribute.table, scan_fillHead named]
  rfl

theorem values_usage {tree : Tree} (plain : tree.isSound .plain true = true) :
    Pattern.values usage tree.print = tree.fills.map fun (name, body) => ⟨fillHead name, body.print⟩ := by
  induction tree with
  | done => simp [Tree.print, Tree.pieces, printPieces, Pattern.values, Pattern.segments, Tree.fills]
  | fill name body rest _ ih =>
    simp only [Tree.isSound, Bool.and_eq_true] at plain
    let taken := (Piece.opening "slot" [slotMention name] false).print ++ (body.print ++ (Piece.closing "slot").print)
    have whole : (Tree.fill name body rest).print = taken ++ rest.print := by
      rw [Tree.print_fill, List.append_assoc, List.append_assoc]
    have takes : usage (taken ++ rest.print) = some (⟨fillHead name, body.print⟩, rest.print) := by
      rw [List.append_assoc, List.append_assoc]
      exact usage_fill plain.1.1 plain.1.2 rest.print
    have hit := Pattern.segments_hit (by simp [taken, Piece.print]) takes
    rw [Pattern.values, whole, hit, List.filterMap_cons]
    change _ :: Pattern.values usage rest.print = _
    rw [ih plain.2]
    rfl
  | text | placeholder | element | component | slot => cases plain

/-- The children of a tag yield its fills. -/
theorem fills_print {tree : Tree} (plain : tree.isSound .plain true = true) :
    fills tree.print = (Bindings.ofList tree.fills).mapValues Tree.print := by
  rw [← Bindings.ofList_map, fills, values_usage plain]
  congr 1
  have named := Tree.isSound_fills plain
  revert named
  generalize tree.fills = filled
  intro named
  induction filled with
  | nil => rfl
  | cons first filled ih =>
    obtain ⟨name, body⟩ := first
    have slot := (named _ List.mem_cons_self).1
    have nonempty : (name != []) = true := by
      simp only [isSlotName, Bool.and_eq_true] at slot
      exact slot.1
    rw [List.map_cons, List.filter_cons_of_pos, List.map_cons, name_of_fillHead slot, markup_of_fillHead slot,
      ih fun other member => named other (List.mem_cons_of_mem _ member)]
    · rfl
    · dsimp only
      rw [name_of_fillHead slot]
      exact nonempty

end Slot

end ComponentPages
