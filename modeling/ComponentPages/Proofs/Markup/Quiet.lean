import ComponentPages.Proofs.Compilation
import ComponentPages.Proofs.Markup.Placeholder

/-!
The passes that find nothing to do in sound pieces. They hold no script of the dialect, no inline handler, no
marked signal and no element that fetches, so lowering and masking keep them as they are.
-/
namespace ComponentPages

namespace Signal

theorem block_of_ne (c : Char) (text : Text) (other : c ≠ '<') : block (c :: text) = none := by
  have absent : Text.after? "<" (c :: text) = none := by simp [Text.after?, other.symm]
  rw [block, absent]
  rfl

theorem absent_block {pieces : List Piece} (sound : ∀ piece ∈ pieces, piece.isSound = true) :
    Pattern.Absent block (printPieces pieces) := by
  apply absent_printPieces block_of_ne sound
  intro before piece rest whole tag
  have pieceSound : piece.isSound = true := sound piece (by rw [whole]; simp)
  have letters : ∀ letter ∈ ("script" : Text), matchesLetter letter ' ' = false ∧ matchesLetter letter '>' = false := by
    decide
  cases piece with
  | text words => cases tag
  | placeholder inner => cases tag
  | opening name mentions closed =>
    simp only [Piece.isSound, Bool.and_eq_true] at pieceSound
    obtain ⟨-, -, -, -, parts⟩ := isTagNamePart_of_isTagName pieceSound.1.1
    have front : Text.after? "<" ((Piece.opening name mentions closed).print ++ printPieces rest) =
        some (name ++ (printHead mentions closed ++ '>' :: printPieces rest)) := by
      simp [Piece.print, Text.after?]
    rw [block, front, Option.bind_eq_bind, Option.bind_some]
    cases read : Text.afterFolded? "script" (name ++ (printHead mentions closed ++ '>' :: printPieces rest)) with
    | none => rfl
    | some after =>
      obtain ⟨written, more, rfl, rfl, matches_⟩ := Block.exists_of_afterFolded? letters read
      have ascii : ∀ c ∈ written, isTagNamePart c = true := fun c member => parts c (List.mem_append_left more member)
      cases more with
      | nil =>
        -- The whole name is read, and it would be that of a script.
        have named := pieceSound.1.1
        have lowered := Block.map_toLower_of_matches matches_ ascii
        rw [List.append_nil, isTagName, namesBlock, lowered] at named
        simp at named
      | cons c more =>
        have solid := isBlank_of_isTagNamePart (parts c (by simp))
        exact if_pos (by simp [solid])
  | closing name =>
    have front : Text.after? "<" ((Piece.closing name).print ++ printPieces rest) =
        some ('/' :: (name ++ '>' :: printPieces rest)) := by
      simp [Piece.print, Text.after?]
    rw [block, front]
    rfl

/-- The name of an event: `on` and at least one ASCII letter. -/
def IsEvent (name : Text) : Prop :=
  ∃ letters : Text, letters ≠ [] ∧ (∀ c ∈ letters, c.isAlpha = true) ∧ name = "on" ++ letters

theorem IsEvent.isAlpha {name : Text} (named : IsEvent name) : ∀ c ∈ name, c.isAlpha = true := by
  obtain ⟨letters, -, alphabetic, rfl⟩ := named
  intro c member
  rcases List.mem_append.1 member with word | letter
  · exact (by decide : ∀ c ∈ ("on" : Text), c.isAlpha = true) c word
  · exact alphabetic c letter

theorem event_eq_some_iff {text name rest : Text} :
    Script.event text = some (name, rest) ↔
      IsEvent name ∧ text = name ++ rest ∧ rest.head?.all (fun c => !c.isAlpha) = true := by
  simp only [Script.event, bind, Option.bind_eq_some_iff, Option.some.injEq, Prod.exists, Prod.mk.injEq]
  constructor
  · rintro ⟨afterOn, on, letters, after, ran, rfl, rfl⟩
    unfold Pattern.run at ran
    split at ran
    · cases ran
    · next nonempty =>
      cases ran
      refine ⟨⟨_, nonempty, fun c member => List.mem_takeWhile_imp member, rfl⟩, ?_, all_head?_dropWhile Char.isAlpha afterOn⟩
      rw [List.append_assoc, List.takeWhile_append_dropWhile, Text.eq_of_after? on]
  · rintro ⟨⟨letters, nonempty, alphabetic, rfl⟩, rfl, stops⟩
    exact ⟨letters ++ rest, by rw [List.append_assoc, Text.after?_append], letters, rest,
      Pattern.run_append nonempty alphabetic stops, rfl, rfl⟩

/-- A handler starts with the name of an event, an equals sign and a brace, perhaps with white space between. -/
theorem handlerStart_eq_some_iff {text event body : Text} :
    handlerStart text = some (event, body) ↔ ∃ left right, IsEvent event ∧ IsSpace left ∧ IsSpace right ∧
      text = event ++ left ++ '=' :: right ++ '\x7b' :: body := by
  simp only [handlerStart, bind, Option.bind_eq_some_iff, Option.some.injEq, Prod.exists, Prod.mk.injEq,
    event_eq_some_iff, Text.after?_eq_some_iff]
  constructor
  · rintro ⟨name, afterEvent, ⟨named, rfl, -⟩, afterEquals, equals, rest, opened, rfl, rfl⟩
    obtain ⟨left, leftSpace, leftWhole⟩ := Text.exists_eq_trimLeft afterEvent
    obtain ⟨right, rightSpace, rightWhole⟩ := Text.exists_eq_trimLeft afterEquals
    refine ⟨left, right, named, leftSpace, rightSpace, ?_⟩
    conv => lhs; rw [leftWhole, equals, rightWhole, opened]
    simp
  · rintro ⟨left, right, named, leftSpace, rightSpace, rfl⟩
    refine ⟨event, left ++ '=' :: (right ++ '\x7b' :: body), ⟨named, by simp, ?_⟩, right ++ '\x7b' :: body,
      Text.trimLeft_append_cons leftSpace (by decide) _, body, Text.trimLeft_append_cons rightSpace (by decide) _,
      rfl, rfl⟩
    cases left with
    | nil => rfl
    | cons c left =>
      have blank := leftSpace c List.mem_cons_self
      cases letter : c.isAlpha with
      | false => simp [letter]
      | true =>
        rw [isBlank_of_isAlpha letter] at blank
        cases blank

/-- The start of a handler is a stretch without a closing angle bracket, up to its brace. -/
theorem eq_of_handlerStart {text event body : Text} (found : handlerStart text = some (event, body)) :
    ∃ written, text = written ++ '\x7b' :: body ∧ '>' ∉ written := by
  obtain ⟨left, right, named, leftSpace, rightSpace, rfl⟩ := handlerStart_eq_some_iff.1 found
  refine ⟨event ++ left ++ '=' :: right, rfl, ?_⟩
  intro member
  simp only [List.mem_append, List.mem_cons] at member
  rcases member with (inEvent | inSpace) | equal | inSpace
  · exact absurd (named.isAlpha '>' inEvent) (by decide)
  · exact absurd (leftSpace '>' inSpace) (by decide)
  · exact absurd equal (by decide)
  · exact absurd (rightSpace '>' inSpace) (by decide)

/-- No handler starts where the tag ends before the next brace. -/
theorem handlerStart_of_braceless {inside : Text} (braceless : ∀ c ∈ inside, c ≠ '\x7b') (rest : Text) :
    handlerStart (inside ++ '>' :: rest) = none := by
  cases found : handlerStart (inside ++ '>' :: rest) with
  | none => rfl
  | some result =>
    obtain ⟨event, body⟩ := result
    obtain ⟨written, whole, free⟩ := eq_of_handlerStart found
    rcases List.append_eq_append_iff.1 whole with ⟨gap, longer, remains⟩ | ⟨gap, longer, remains⟩
    · cases gap with
      | nil => exact absurd (List.cons.inj remains).1 (by decide)
      | cons c gap =>
        obtain rfl := (List.cons.inj remains).1
        exact absurd (by rw [longer]; simp) free
    · cases gap with
      | nil => exact absurd (List.cons.inj remains).1 (by decide)
      | cons c gap =>
        obtain rfl := (List.cons.inj remains).1
        exact absurd rfl (braceless '\x7b' (by rw [longer]; simp))

/-- A place in a text where a handler would start. -/
def Handles (before : Text) (c : Char) (after : Text) : Prop :=
  handlerStart (c :: after) ≠ none ∧
    opensTag (fun c => isLetter c && !isUpper c) (some c) before.reverse = true

theorem partsFrom_of_quiet {html before text : Text} (whole : html = before ++ text)
    (quiet : ∀ part c after, text = part ++ c :: after → ¬Handles (before ++ part) c after) (last : Option Char) :
    partsFrom [] html before.length last text = text.map Part.plain := by
  induction text generalizing before last with
  | nil => rw [partsFrom, List.map_nil]
  | cons c text ih =>
    have here : handlerHere? [] html before.length last (c :: text) = none := by
      rw [handlerHere?, Option.filter_eq_none_iff]
      intro found starts both
      rw [insideElementTag, covered_nil, Bool.not_false, Bool.and_true, whole, List.take_left,
        List.getElem?_append_right (Nat.le_refl _), Nat.sub_self] at both
      refine quiet [] c text rfl ⟨?_, by simpa using both⟩
      intro unstarted
      rw [unstarted] at starts
      split at starts <;> cases starts
    have split : html = (before ++ [c]) ++ text := by rw [whole, List.append_assoc, List.singleton_append]
    have later := ih split
      (by
        intro part d after place
        have none := quiet (c :: part) d after (by rw [place, List.cons_append])
        rwa [List.append_assoc, List.singleton_append]) (some c)
    rw [List.length_append, List.length_singleton] at later
    rw [partsFrom]
    split
    · rw [later, List.map_cons]
    · next event body starts =>
      rw [here] at starts
      cases starts

/-- A tag holds no handler: that of a component does not count, and the others hold no braces. -/
theorem not_handles_print {piece : Piece} (sound : piece.isSound = true) {earlier : List Piece}
    (earlierSound : ∀ piece ∈ earlier, piece.isSound = true) {part : Text} {c : Char} {after rest : Text}
    (whole : piece.print = part ++ c :: after) : ¬Handles (printPieces earlier ++ part) c (after ++ rest) := by
  rintro ⟨starts, inside⟩
  have outside := opensTag_printPieces earlierSound (fun c => isLetter c && !isUpper c)
  have tagged {first : Char} {more : Text} (shape : piece.print = '<' :: first :: more ++ ['>'])
      (free : ∀ d ∈ first :: more, isAngle d = false) : (isLetter first && !isUpper first) = true := by
    cases part with
    | nil =>
      rw [List.append_nil, outside] at inside
      cases inside
    | cons d part =>
      obtain ⟨rfl, behind⟩ := List.cons.inj (whole.symm.trans shape)
      rwa [opensTag_front behind free] at inside
  rcases Piece.print_eq_angle sound with free | ⟨tail, shape, free⟩
  · have ahead : ∀ d ∈ part, d ≠ '<' := fun d member => free d (by rw [whole]; simp [member])
    have untagged := opensTag_free ahead outside (some c)
    rw [List.reverse_append, untagged] at inside
    cases inside
  · cases piece with
    | text words => cases Piece.isTag_of_print sound shape
    | placeholder inner => cases Piece.isTag_of_print sound shape
    | closing name =>
      have opening : (Piece.closing name).print = '<' :: ('/' :: name ++ ['>']) := rfl
      obtain rfl : tail = '/' :: name := List.append_cancel_right (List.cons.inj (shape.symm.trans opening)).2
      exact absurd (tagged shape free) (by decide)
    | opening name mentions closed =>
      have opening : (Piece.opening name mentions closed).print = '<' :: (name ++ printHead mentions closed ++ ['>']) := rfl
      obtain rfl : tail = name ++ printHead mentions closed :=
        List.append_cancel_right (List.cons.inj (shape.symm.trans opening)).2
      simp only [Piece.isSound, Bool.and_eq_true, Bool.or_eq_true, List.all_eq_true] at sound
      obtain ⟨⟨named, mentionsSound⟩, kind⟩ := sound
      obtain ⟨first, more, rfl, -, parts⟩ := isTagNamePart_of_isTagName named
      rcases kind with pascal | static
      · have lower := tagged shape free
        simp only [isPascalCase, Bool.and_eq_true] at pascal
        simp [isUpper, pascal.1] at lower
      · obtain ⟨within, ended, same⟩ := exists_of_append_concat (whole.symm.trans shape)
        have braceless : ∀ d ∈ within, d ≠ '\x7b' := by
          have inHead : ∀ d ∈ '<' :: (first :: more ++ printHead mentions closed), d ≠ '\x7b' := by
            intro d member
            rcases List.mem_cons.1 member with rfl | later
            · decide
            · rcases List.mem_append.1 later with inName | inMentions
              · exact ne_of_isTagNamePart (parts d inName) (by decide)
              · rintro rfl
                exact absurd (isBrace_of_mem_printHead mentionsSound static inMentions) (by decide)
          intro d member
          exact inHead d (by rw [same]; exact List.mem_append_right part member)
        apply starts
        rw [← List.cons_append, ended, List.append_assoc, List.singleton_append]
        exact handlerStart_of_braceless braceless rest

theorem not_handles_printPieces {pieces : List Piece} (sound : ∀ piece ∈ pieces, piece.isSound = true)
    {earlier : List Piece} (earlierSound : ∀ piece ∈ earlier, piece.isSound = true) {part : Text} {c : Char}
    {after : Text} (whole : printPieces pieces = part ++ c :: after) :
    ¬Handles (printPieces earlier ++ part) c after := by
  induction pieces generalizing earlier part with
  | nil => simp [printPieces] at whole
  | cons piece pieces ih =>
    have pieceSound := sound piece List.mem_cons_self
    have laterSound : ∀ other ∈ earlier ++ [piece], other.isSound = true := by
      intro other member
      rcases List.mem_append.1 member with early | last
      · exact earlierSound other early
      · rw [List.mem_singleton.1 last]
        exact pieceSound
    have behind {gap : Text} (remains : printPieces pieces = gap ++ c :: after) :
        ¬Handles (printPieces earlier ++ (piece.print ++ gap)) c after := by
      have later := ih (fun other member => sound other (List.mem_cons_of_mem piece member)) laterSound remains
      have joined : printPieces (earlier ++ [piece]) = printPieces earlier ++ piece.print := by simp [printPieces]
      rwa [joined, List.append_assoc] at later
    rw [printPieces_cons] at whole
    rcases List.append_eq_append_iff.1 whole with ⟨gap, longer, remains⟩ | ⟨gap, longer, remains⟩
    · rw [longer]
      exact behind remains
    · cases gap with
      | nil =>
        rw [List.append_nil] at longer
        have here := @behind [] remains.symm
        rwa [List.append_nil, longer] at here
      | cons d gap =>
        obtain ⟨rfl, rfl⟩ := List.cons.inj remains
        exact not_handles_print pieceSound earlierSound longer

theorem parts_printPieces {pieces : List Piece} (sound : ∀ piece ∈ pieces, piece.isSound = true) :
    parts (printPieces pieces) = (printPieces pieces).map Part.plain := by
  rw [parts, Block.spans_printPieces sound]
  have quiet : ∀ part c after, printPieces pieces = part ++ c :: after → ¬Handles ([] ++ part) c after :=
    fun part c after whole => @not_handles_printPieces _ sound [] (by simp) part c after whole
  exact partsFrom_of_quiet rfl quiet none

theorem lowerParts_map_plain (scope : Scope) (found : Declarations) (text : Text) :
    lowerParts scope found (text.map Part.plain) = pure (text, found) := by
  induction text with
  | nil => rfl
  | cons c text ih =>
    rw [List.map_cons, lowerParts, lowerPart, pure_bind]
    dsimp only
    rw [ih, pure_bind]
    rfl

/-- Lowering leaves a text alone that has neither scripts nor handlers, and queues nothing. -/
theorem lower_of_quiet {html : Text} (unscripted : Pattern.values block html = []) (kept : Pattern.erase block html = html)
    (unhandled : parts html = html.map Part.plain) (scope : Scope) : lower html scope = pure html := by
  rw [lower, unscripted, kept, unhandled]
  change (lowerParts scope {} (html.map Part.plain) >>= _) = _
  rw [lowerParts_map_plain]
  rfl

theorem lower_printPieces {pieces : List Piece} (sound : ∀ piece ∈ pieces, piece.isSound = true) (scope : Scope) :
    lower (printPieces pieces) scope = pure (printPieces pieces) := by
  have absent := absent_block sound
  exact lower_of_quiet (Pattern.values_of_absent absent) (Pattern.erase_of_absent absent) (parts_printPieces sound) scope

end Signal

/-- Sound pieces hold no reserved character. -/
theorem isReserved_of_mem_printPieces {pieces : List Piece} (sound : ∀ piece ∈ pieces, piece.isSound = true) :
    ∀ c ∈ printPieces pieces, isReserved c = false := by
  have constant {c : Char} (part : isConstantPart c = true) : isReserved c = false := by
    simp only [isConstantPart, Bool.and_eq_true, Bool.not_eq_true'] at part
    exact part.2
  have inside {c : Char} (part : isExpressionPart c = true) : isReserved c = false := by
    simp only [isExpressionPart, Bool.and_eq_true, Bool.not_eq_true'] at part
    exact part.2
  have inHead {mentions : List Mention} (mentionsSound : ∀ mention ∈ mentions, mention.isSound = true)
      {closed : Bool} {c : Char} (member : c ∈ printHead mentions closed) : isReserved c = false := by
    rcases mem_printHead member with ⟨mention, listed, printed⟩ | rfl | rfl
    · rcases Mention.mem_print_of_isSound (mentionsSound mention listed) printed with part | quotes | ⟨-, rfl | rfl | part⟩
      · exact constant part
      · rcases isQuote_iff.1 quotes with rfl | rfl <;> decide
      · decide
      · decide
      · exact inside part
    · decide
    · decide
  have inName {name : Text} (named : isTagName name = true) {c : Char} (member : c ∈ name) : isReserved c = false := by
    obtain ⟨-, -, -, -, parts⟩ := isTagNamePart_of_isTagName named
    exact constant (isConstantPart_of_isMentionPart (isMentionPart_of_isTagNamePart (parts c member)))
  intro c member
  obtain ⟨piece, listed, printed⟩ := List.mem_flatMap.1 member
  have pieceSound := sound piece listed
  cases piece with
  | text words =>
    simp only [Piece.isSound, List.all_eq_true, isTextPart, Bool.and_eq_true, Bool.not_eq_true'] at pieceSound
    exact (pieceSound c printed).2
  | placeholder inner =>
    simp only [Piece.isSound, Bool.and_eq_true, List.all_eq_true] at pieceSound
    simp only [Piece.print, List.cons_append, List.mem_cons, List.mem_append, List.not_mem_nil, or_false] at printed
    rcases printed with rfl | part | rfl
    · decide
    · exact inside (pieceSound.2 c part)
    · decide
  | opening name mentions closed =>
    simp only [Piece.isSound, Bool.and_eq_true, List.all_eq_true] at pieceSound
    simp only [Piece.print, List.cons_append, List.mem_cons, List.mem_append, List.not_mem_nil, or_false] at printed
    rcases printed with rfl | (part | part) | rfl
    · decide
    · exact inName pieceSound.1.1 part
    · exact inHead pieceSound.1.2 part
    · decide
  | closing name =>
    simp only [Piece.print, List.cons_append, List.mem_cons, List.mem_append, List.not_mem_nil, or_false] at printed
    rcases printed with rfl | rfl | part | rfl
    · decide
    · decide
    · exact inName pieceSound part
    · decide

namespace Signal

theorem marker_of_ne (c : Char) (text : Text) (other : c ≠ markerOpen) : marker (c :: text) = none := by
  simp [marker, Text.after?, other.symm]

/-- A text without reserved characters holds no marked signal. -/
theorem resolve_of_unreserved {text : Text} (free : ∀ c ∈ text, isReserved c = false) : resolve text = text := by
  refine Pattern.replace_of_absent (Pattern.passes_of_begins [] ?_) element
  intro c member more
  apply marker_of_ne
  rintro rfl
  exact absurd (free markerOpen member) (by decide)

end Signal

namespace Fetch

theorem maskFrom_nil (html : Text) (offset : Nat) (text : Text) : maskFrom [] html offset text = text := by
  induction text generalizing offset with
  | nil => rfl
  | cons c text ih => rw [maskFrom, covered_nil, Bool.and_false, Bool.false_and, if_neg Bool.false_ne_true, ih]

theorem bodies_of_none {html : Text} {start : Nat} (nothing : next? html start = none) : bodies html start = .ok [] := by
  rw [bodies]
  split
  · rfl
  · next found =>
    rw [nothing] at found
    cases found

theorem mask_of_none {html : Text} (nothing : next? html 0 = none) : mask html = .ok html := by
  rw [mask, bodies_of_none nothing, Except.map, maskFrom_nil]

theorem lower_of_none {html : Text} (nothing : next? html 0 = none) (texts : ScriptTexts) :
    lower texts html = (do
      Compile.note ((headsRead (elementMarks html 0)).flatMap Note.ofHead)
      pure html) := by
  rw [lower, lowerFrom]
  split
  · rfl
  · next found =>
    rw [nothing] at found
    cases found

/-- A text without reserved characters hides no brace. -/
theorem unmask_of_unreserved {text : Text} (free : ∀ c ∈ text, isReserved c = false) : unmask text = text := by
  rw [unmask]
  conv => rhs; rw [← List.map_id text]
  apply List.map_congr_left
  intro c member
  have shown := free c member
  have noOpen : c ≠ maskOpen := by
    rintro rfl
    exact absurd shown (by decide)
  have noClose : c ≠ maskClose := by
    rintro rfl
    exact absurd shown (by decide)
  rw [unmaskChar, if_neg noOpen, if_neg noClose, id]

end Fetch

end ComponentPages
