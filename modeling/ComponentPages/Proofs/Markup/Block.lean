import ComponentPages.Proofs.Markup.Piece

/-!
Sound pieces hold no script or style block, no comment and no script of the dialect.
-/
namespace ComponentPages

theorem toNat_of_isTagNamePart {c : Char} (part : isTagNamePart c = true) : c.toNat < 128 := by
  simp only [isTagNamePart, Bool.or_eq_true, beq_iff_eq] at part
  rcases part with alphanumeric | rfl
  · have ranges := toNat_of_isAlphanum alphanumeric
    omega
  · decide

theorem toLower_of_matchesLetter {letter c : Char} (part : isTagNamePart c = true)
    (matches_ : matchesLetter letter c = true) : c.toLower = letter := by
  have ascii := toNat_of_isTagNamePart part
  simp only [matchesLetter, Bool.or_eq_true, Bool.and_eq_true, beq_iff_eq] at matches_
  rcases matches_ with ((same | ⟨-, code⟩) | ⟨-, code | code⟩) | ⟨-, code⟩
  · exact same
  all_goals omega

theorem lowerChar_of_isTagNamePart {c : Char} (part : isTagNamePart c = true) : lowerChar c = c.toLower := by
  rw [lowerChar, if_pos (toNat_of_isTagNamePart part)]

theorem isTagNamePart_toLower {c : Char} (part : isTagNamePart c = true) : isTagNamePart c.toLower = true := by
  unfold Char.toLower
  split
  · next upper =>
    have low := UInt32.le_iff_toNat_le.1 upper.1
    have high := UInt32.le_iff_toNat_le.1 upper.2
    change 65 ≤ c.val.toNat at low
    change c.val.toNat ≤ 90 at high
    simp only [isTagNamePart, Char.isAlphanum, Char.isAlpha, Char.isLower, Bool.or_eq_true]
    refine .inl (.inl (.inr ?_))
    simp only [Bool.and_eq_true, decide_eq_true_eq, ge_iff_le, UInt32.le_iff_toNat_le, UInt32.toNat_add]
    change 97 ≤ (c.val.toNat + 32) % 2 ^ 32 ∧ (c.val.toNat + 32) % 2 ^ 32 ≤ 122
    omega
  · exact part

theorem Text.lower_of_isTagNamePart {text : Text} (parts : ∀ c ∈ text, isTagNamePart c = true) :
    lower text = text.map Char.toLower := by
  unfold lower
  generalize ([] : Text) = before
  induction text generalizing before with
  | nil => rfl
  | cons c text ih =>
    have part := parts c List.mem_cons_self
    have ascii := toNat_of_isTagNamePart part
    have noDot : (c.toNat == 0x130) = false := by simp; omega
    have noSigma : (c.toNat == 0x3A3) = false := by simp; omega
    rw [lowerAfter, noDot, noSigma, if_neg Bool.false_ne_true, if_neg Bool.false_ne_true,
      lowerChar_of_isTagNamePart part, ih fun d member => parts d (List.mem_cons_of_mem c member)]
    rfl

theorem isMentionPart_of_isTagNamePart {c : Char} (part : isTagNamePart c = true) : isMentionPart c = true := by
  have foreign {d : Char} (other : isTagNamePart d = false) : (c == d) = false :=
    beq_eq_false_iff_ne.2 (ne_of_isTagNamePart part other)
  have shown : isReserved c = false := by
    have ascii := toNat_of_isTagNamePart part
    simp only [isReserved, Bool.and_eq_false_iff, decide_eq_false_iff_not]
    omega
  simp [isMentionPart, isConstantPart, Attribute.isNamePart, isAngle, Placeholder.isBrace, isQuote, bne,
    isBlank_of_isTagNamePart part, shown, foreign (d := '=') (by decide), foreign (d := '/') (by decide),
    foreign (d := '>') (by decide), foreign (d := '<') (by decide), foreign (d := '\x7b') (by decide),
    foreign (d := '\x7d') (by decide), foreign (d := '\'') (by decide), foreign (d := '"') (by decide)]

namespace Block

/-- A reader of closing tags that reads nothing but the names of blocks. -/
def ReadsBlocks (readName : Text → Option Text) : Prop :=
  ∀ text rest, readName text = some rest → ∃ written, text = written ++ rest ∧ '>' ∉ written ∧
    ((∀ c ∈ written, isTagNamePart c = true) → namesBlock written = true)

/-- A word read in either case of its letters is that word in lower case. -/
theorem map_toLower_of_matches {word written : Text}
    (letters : List.Forall₂ (fun letter c => matchesLetter letter c = true) word written)
    (parts : ∀ c ∈ written, isTagNamePart c = true) : written.map Char.toLower = word := by
  induction letters with
  | nil => rfl
  | cons matches_ _ ih =>
    rw [List.map_cons, toLower_of_matchesLetter (parts _ List.mem_cons_self) matches_,
      ih fun c member => parts c (List.mem_cons_of_mem _ member)]

theorem exists_of_matches {word written : Text}
    (letters : List.Forall₂ (fun letter c => matchesLetter letter c = true) word written) {c : Char}
    (member : c ∈ written) : ∃ letter ∈ word, matchesLetter letter c = true := by
  induction letters with
  | nil => cases member
  | @cons letter d word written matches_ _ ih =>
    rcases List.mem_cons.1 member with rfl | later
    · exact ⟨letter, List.mem_cons_self, matches_⟩
    · obtain ⟨other, inWord, found⟩ := ih later
      exact ⟨other, List.mem_cons_of_mem letter inWord, found⟩

theorem readsBlocks_afterFolded? {word : Text} (block : word = "script" ∨ word = "style") :
    ReadsBlocks (Text.afterFolded? word) := by
  intro text rest found
  obtain ⟨written, whole, letters⟩ := Text.eq_of_afterFolded? found
  refine ⟨written, whole, ?_, ?_⟩
  · intro angle
    obtain ⟨letter, member, matches_⟩ := exists_of_matches letters angle
    have foreign : ∀ letter ∈ word, matchesLetter letter '>' = false := by
      rcases block with rfl | rfl <;> decide
    rw [foreign letter member] at matches_
    cases matches_
  · intro parts
    rw [namesBlock, map_toLower_of_matches letters parts]
    rcases block with rfl | rfl <;> decide

theorem eq_of_sameName? {name text rest : Text} (found : sameName? name text = some rest) :
    ∃ written, text = written ++ rest ∧ written.map lowerChar = name.map lowerChar := by
  induction name generalizing text with
  | nil =>
    obtain rfl := Option.some.inj found
    exact ⟨[], rfl, rfl⟩
  | cons c name ih =>
    cases text with
    | nil => simp [sameName?] at found
    | cons d text =>
      rw [sameName?] at found
      split at found
      · next same =>
        obtain ⟨written, whole, letters⟩ := ih found
        exact ⟨d :: written, by rw [whole, List.cons_append], by rw [List.map_cons, List.map_cons, letters, same]⟩
      · simp at found

theorem readsBlocks_sameName? {name : Text} (block : namesBlock name = true)
    (parts : ∀ c ∈ name, isTagNamePart c = true) : ReadsBlocks (sameName? name) := by
  have lowered {text : Text} (ascii : ∀ c ∈ text, isTagNamePart c = true) :
      text.map lowerChar = text.map Char.toLower :=
    List.map_congr_left fun c member => lowerChar_of_isTagNamePart (ascii c member)
  intro text rest found
  obtain ⟨written, whole, same⟩ := eq_of_sameName? found
  refine ⟨written, whole, ?_, ?_⟩
  · intro angle
    have member : '>' ∈ name.map lowerChar := by
      rw [← same]
      exact List.mem_map.2 ⟨'>', angle, by decide⟩
    rw [lowered parts] at member
    rw [namesBlock, Bool.or_eq_true, beq_iff_eq, beq_iff_eq] at block
    rcases block with word | word
    · rw [word] at member
      exact absurd member (by decide)
    · rw [word] at member
      exact absurd member (by decide)
  · intro ascii
    rw [lowered parts, lowered ascii] at same
    rw [namesBlock, same]
    exact block

/-- What is read as a name in front of the end of a tag is the whole name. -/
theorem eq_of_ends {name written rest more : Text} (named : isTagName name = true)
    (whole : name ++ '>' :: more = written ++ rest) (free : '>' ∉ written)
    (ends : Text.after? ">" (Text.trimLeft rest) ≠ none) : written = name := by
  obtain ⟨-, -, -, -, parts⟩ := isTagNamePart_of_isTagName named
  rcases List.append_eq_append_iff.1 whole with ⟨gap, longer, remains⟩ | ⟨gap, longer, remains⟩
  · cases gap with
    | nil => rw [longer, List.append_nil]
    | cons c gap =>
      obtain rfl := (List.cons.inj remains).1
      exact absurd (by rw [longer]; simp) free
  · cases gap with
    | nil => rw [longer, List.append_nil]
    | cons c gap =>
      have part := parts c (by rw [longer]; simp)
      rw [remains, List.cons_append, Text.trimLeft_cons_of_not_blank (isBlank_of_isTagNamePart part)] at ends
      have other : '>' ≠ c := (ne_of_isTagNamePart part (by decide)).symm
      exact absurd (by simp [Text.after?, other]) ends

theorem closing?_of_ne (readName : Text → Option Text) (c : Char) (text : Text) (other : c ≠ '<') :
    closing? readName (c :: text) = none := by
  simp [closing?, Text.after?, other.symm]

/-- The closing tag of an element or a component closes no block. -/
theorem closing?_closing {readName : Text → Option Text} (reads : ReadsBlocks readName) {name : Text}
    (named : isTagName name = true) (rest : Text) : closing? readName ((Piece.closing name).print ++ rest) = none := by
  have front : Text.after? "</" ((Piece.closing name).print ++ rest) = some (name ++ '>' :: rest) := by
    simp [Piece.print, Text.after?]
  rw [closing?, front, Option.bind_eq_bind, Option.bind_some]
  cases read : readName (name ++ '>' :: rest) with
  | none => rfl
  | some after =>
    obtain ⟨written, same, free, blocks⟩ := reads _ _ read
    obtain ⟨-, -, -, -, parts⟩ := isTagNamePart_of_isTagName named
    rw [Option.bind_some]
    cases ends : Text.after? ">" (Text.trimLeft after) with
    | none => rfl
    | some remainder =>
      have all := eq_of_ends named same free (by rw [ends]; exact Option.some_ne_none remainder)
      subst all
      simp only [isTagName, blocks parts, Bool.not_true, Bool.and_false] at named
      cases named

/-- Sound pieces close no block. -/
theorem absent_closing? {readName : Text → Option Text} (reads : ReadsBlocks readName) {pieces : List Piece}
    (sound : ∀ piece ∈ pieces, piece.isSound = true) :
    Pattern.Absent (closing? readName) (printPieces pieces) := by
  apply absent_printPieces (closing?_of_ne readName) sound
  intro before piece rest whole tag
  have pieceSound : piece.isSound = true := sound piece (by rw [whole]; simp)
  cases piece with
  | text words => cases tag
  | placeholder inner => cases tag
  | opening name mentions closed =>
    simp only [Piece.isSound, Bool.and_eq_true] at pieceSound
    obtain ⟨c, name, rfl, letter, -⟩ := isTagNamePart_of_isTagName pieceSound.1.1
    have other : '/' ≠ c := by
      rintro rfl
      exact absurd letter (by decide)
    simp [closing?, Piece.print, Text.after?, other]
  | closing name => exact closing?_closing reads pieceSound (printPieces rest)

theorem printHead_begins (mentions : List Mention) (closed : Bool) (rest : Text) :
    ∃ c more, printHead mentions closed ++ '>' :: rest = c :: more ∧ (c = ' ' ∨ c = '>') := by
  cases mentions with
  | nil =>
    cases closed with
    | true => exact ⟨' ', '/' :: '>' :: rest, rfl, .inl rfl⟩
    | false => exact ⟨'>', rest, rfl, .inr rfl⟩
  | cons mention mentions => exact ⟨' ', _, rfl, .inl rfl⟩

/-- A word of letters in front of a tag's name and head lies in the name. -/
theorem exists_of_afterFolded? {word name after rest : Text} {mentions : List Mention} {closed : Bool}
    (letters : ∀ letter ∈ word, matchesLetter letter ' ' = false ∧ matchesLetter letter '>' = false)
    (found : Text.afterFolded? word (name ++ (printHead mentions closed ++ '>' :: rest)) = some after) :
    ∃ written more, name = written ++ more ∧ after = more ++ (printHead mentions closed ++ '>' :: rest) ∧
      List.Forall₂ (fun letter c => matchesLetter letter c = true) word written := by
  obtain ⟨written, whole, matches_⟩ := Text.eq_of_afterFolded? found
  rcases List.append_eq_append_iff.1 whole with ⟨gap, longer, remains⟩ | ⟨gap, shorter, remains⟩
  · cases gap with
    | nil =>
      rw [List.append_nil] at longer
      rw [List.nil_append] at remains
      exact ⟨written, [], by rw [longer, List.append_nil], remains.symm, matches_⟩
    | cons c gap =>
      obtain ⟨d, more, same, punctuation⟩ := printHead_begins mentions closed rest
      rw [same] at remains
      obtain rfl := (List.cons.inj remains).1
      obtain ⟨letter, member, here⟩ := exists_of_matches matches_ (c := d) (by rw [longer]; simp)
      rcases punctuation with rfl | rfl
      · rw [(letters letter member).1] at here
        cases here
      · rw [(letters letter member).2] at here
        cases here
  · exact ⟨written, gap, shorter, remains, matches_⟩

/-- What an opening tag may be read as the start of a block, given what follows it. -/
theorem opening?_print {word name : Text} {mentions : List Mention} {closed : Bool} {rest contents written : Text}
    (block : word = "script" ∨ word = "style")
    (sound : (Piece.opening name mentions closed).isSound = true)
    (found : opening? word ((Piece.opening name mentions closed).print ++ rest) = some (written, contents)) :
    contents = rest ∧ namesBlock written = true ∧ ∀ c ∈ written, isTagNamePart c = true := by
  simp only [Piece.isSound, Bool.and_eq_true, List.all_eq_true] at sound
  obtain ⟨-, -, -, -, parts⟩ := isTagNamePart_of_isTagName sound.1.1
  have front : Text.after? "<" ((Piece.opening name mentions closed).print ++ rest) =
      some (name ++ (printHead mentions closed ++ '>' :: rest)) := by
    simp [Piece.print, Text.after?]
  have letters : ∀ letter ∈ word, matchesLetter letter ' ' = false ∧ matchesLetter letter '>' = false := by
    rcases block with rfl | rfl <;> decide
  rw [opening?, front, Option.bind_eq_bind, Option.bind_some] at found
  cases read : Text.afterFolded? word (name ++ (printHead mentions closed ++ '>' :: rest)) with
  | none =>
    rw [read] at found
    cases found
  | some after =>
    obtain ⟨start, more, same, remains, matches_⟩ := exists_of_afterFolded? letters read
    have angleFree : ∀ c ∈ more ++ printHead mentions closed, c ≠ '>' := by
      intro c member
      have angle : isAngle c = false := by
        rcases List.mem_append.1 member with inName | inHead
        · exact isAngle_of_isTagNamePart (parts c (by rw [same]; exact List.mem_append_right start inName))
        · exact isAngle_of_mem_printHead sound.1.2 inHead
      simp only [isAngle, Bool.or_eq_false_iff, beq_eq_false_iff_ne] at angle
      exact angle.2
    have ascii : ∀ c ∈ start, isTagNamePart c = true := by
      intro c member
      exact parts c (by rw [same]; exact List.mem_append_left more member)
    have taken : List.take word.length (name ++ (printHead mentions closed ++ '>' :: rest)) = start := by
      rw [same, List.append_assoc, matches_.length_eq, List.take_left]
    rw [read, Option.bind_some, taken, remains, ← List.append_assoc, Text.cut?_append angleFree] at found
    split at found
    · cases found
    · cases found
      refine ⟨rfl, ?_, ascii⟩
      rw [namesBlock, map_toLower_of_matches matches_ ascii]
      rcases block with rfl | rfl <;> decide

theorem opening?_closing {word : Text} (block : word = "script" ∨ word = "style") (name rest : Text) :
    opening? word ((Piece.closing name).print ++ rest) = none := by
  rcases block with rfl | rfl <;> simp [opening?, Piece.print, Text.after?, Text.afterFolded?, matchesLetter]

theorem opening?_of_ne (word : Text) (c : Char) (text : Text) (other : c ≠ '<') : opening? word (c :: text) = none := by
  simp [opening?, Text.after?, other.symm]

/-- Sound pieces hold no block that passes leave alone. -/
theorem absent_guarded {pieces : List Piece} (sound : ∀ piece ∈ pieces, piece.isSound = true) :
    Pattern.Absent guarded (printPieces pieces) := by
  apply absent_printPieces _ sound
  · intro before piece rest whole tag
    have restSound : ∀ other ∈ rest, other.isSound = true := by
      intro other member
      exact sound other (by rw [whole]; simp [member])
    have pieceSound : piece.isSound = true := sound piece (by rw [whole]; simp)
    unfold guarded
    cases piece with
    | text words => cases tag
    | placeholder inner => cases tag
    | opening name mentions closed =>
      cases opens : (opening? "script" ((Piece.opening name mentions closed).print ++ printPieces rest)).or
          (opening? "style" ((Piece.opening name mentions closed).print ++ printPieces rest)) with
      | none => rfl
      | some found =>
        obtain ⟨written, contents⟩ := found
        obtain ⟨rfl, blocks, parts⟩ :
            contents = printPieces rest ∧ namesBlock written = true ∧ ∀ c ∈ written, isTagNamePart c = true := by
          rcases Option.or_eq_some_iff.1 opens with script | ⟨-, style⟩
          · exact opening?_print (.inl rfl) pieceSound script
          · exact opening?_print (.inr rfl) pieceSound style
        have unclosed := Pattern.seek?_of_absent (absent_closing? (readsBlocks_sameName? blocks parts) restSound)
        rw [Option.bind_eq_bind, Option.bind_some]
        dsimp only
        rw [unclosed]
        rfl
    | closing name =>
      rw [opening?_closing (.inl rfl), opening?_closing (.inr rfl)]
      rfl
  · intro c text other
    rw [guarded, opening?_of_ne "script" c text other, opening?_of_ne "style" c text other]
    rfl

/-- Sound pieces hold no script. -/
theorem absent_named {word : Text} (block : word = "script" ∨ word = "style") {pieces : List Piece}
    (sound : ∀ piece ∈ pieces, piece.isSound = true) : Pattern.Absent (named word) (printPieces pieces) := by
  apply absent_printPieces _ sound
  · intro before piece rest whole tag
    have restSound : ∀ other ∈ rest, other.isSound = true := by
      intro other member
      exact sound other (by rw [whole]; simp [member])
    have pieceSound : piece.isSound = true := sound piece (by rw [whole]; simp)
    unfold named
    cases piece with
    | text words => cases tag
    | placeholder inner => cases tag
    | opening name mentions closed =>
      cases opens : opening? word ((Piece.opening name mentions closed).print ++ printPieces rest) with
      | none => rfl
      | some found =>
        obtain ⟨written, contents⟩ := found
        obtain ⟨rfl, -, -⟩ := opening?_print block pieceSound opens
        have unclosed := Pattern.seek?_of_absent (absent_closing? (readsBlocks_afterFolded? block) restSound)
        rw [Option.bind_eq_bind, Option.bind_some]
        dsimp only
        rw [unclosed]
        rfl
    | closing name =>
      rw [opening?_closing block]
      rfl
  · intro c text other
    rw [named, opening?_of_ne word c text other]
    rfl

theorem spans_of_absent {html : Text} (absent : Pattern.Absent guarded html) : spans html = [] := by
  rw [spans, Pattern.segments_of_absent absent, List.filterMap_eq_nil_iff]
  rintro ⟨offset, segment⟩ member
  obtain ⟨c, -, rfl⟩ := List.mem_map.1 (Pattern.mem_of_mem_located member)
  rfl

theorem spans_printPieces {pieces : List Piece} (sound : ∀ piece ∈ pieces, piece.isSound = true) :
    spans (printPieces pieces) = [] :=
  spans_of_absent (absent_guarded sound)

end Block

end ComponentPages
