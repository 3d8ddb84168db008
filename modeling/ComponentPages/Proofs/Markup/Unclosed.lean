import ComponentPages.Proofs.Markup.Block

/-!
Texts without a closing tag of a script or style. Such a text holds no block that passes leave alone, however many
opening tags of scripts and styles it has, since a block is closed under the name that opened it.
-/
namespace ComponentPages

/-- The letters in the names of blocks. -/
def blockLetters : Text := "scriptyle"

/-- The codes of these letters, and of the long s and the dotless i. -/
def blockCodes : List Nat := blockLetters.map Char.toNat ++ [0x17F, 0x131]

/-- Apart from the dotted capital i, no character above ASCII is lowered to one of these codes. -/
theorem eq_of_lowerChar {c d : Char} (target : d.toNat ∈ blockCodes) (lower : lowerChar c = d) :
    c.toNat < 128 ∧ c.toLower = d ∨ c.toNat = 0x130 ∧ d = 'i' ∨ c = d := by
  have missed : ∀ run ∈ lowerRuns, ∀ code ∈ blockCodes,
      (code : Int) < run.1 + run.2.2.2 ∨ (run.2.1 : Int) + run.2.2.2 < code := by decide +kernel
  unfold lowerChar at lower
  split at lower
  · next ascii => exact .inl ⟨ascii, lower⟩
  · split at lower
    · next dotted => exact .inr (.inl ⟨by simpa using dotted, lower.symm⟩)
    · split at lower
      · next first last step distance found =>
        have within := List.find?_some found
        have away := missed _ (List.mem_of_find?_eq_some found) _ target
        simp only [Bool.and_eq_true, decide_eq_true_eq] at within
        dsimp only at away
        have present : d.toNat ≠ 0 := by
          intro zero
          rw [zero] at target
          exact absurd target (by decide)
        have code : d.toNat = ((c.toNat : Int) + distance).toNat ∨ d.toNat = 0 := by
          rw [← lower, Char.toNat_ofNat]
          split
          · exact .inl rfl
          · exact .inr rfl
        omega
      · exact .inr (.inr lower)

theorem toNat_toLower {c : Char} (ascii : c.toNat < 128) : c.toLower.toNat < 128 := by
  unfold Char.toLower
  split
  · next upper =>
    have high := UInt32.le_iff_toNat_le.1 upper.2
    change c.val.toNat ≤ 90 at high
    change (c.val + 32).toNat < 128
    rw [UInt32.toNat_add]
    change (c.val.toNat + 32) % 2 ^ 32 < 128
    omega
  · exact ascii

theorem toLower_of_not_ascii {c : Char} (high : 128 ≤ c.toNat) : c.toLower = c := by
  unfold Char.toLower
  split
  · next upper =>
    have low := UInt32.le_iff_toNat_le.1 upper.2
    change c.toNat ≤ 90 at low
    omega
  · rfl

/-- What matches a letter of a block name has that letter as its lower case, or it is its own lower case. -/
theorem lowerChar_of_matchesLetter {letter c : Char} (listed : letter ∈ blockLetters)
    (matches_ : matchesLetter letter c = true) :
    lowerChar c = letter ∨ lowerChar c = c ∧ c.toNat ∈ blockCodes ∧ 128 ≤ c.toNat ∧ c ≠ 'i' := by
  have ascii : ∀ letter ∈ blockLetters, letter.toNat < 128 := by decide
  simp only [matchesLetter, Bool.or_eq_true, Bool.and_eq_true, beq_iff_eq] at matches_
  rcases matches_ with ((lower | ⟨rfl, long⟩) | ⟨rfl, dotted | dotless⟩) | ⟨rfl, kelvin⟩
  · have low : c.toNat < 128 := by
      by_contra high
      rw [toLower_of_not_ascii (by omega)] at lower
      exact high (lower ▸ ascii letter listed)
    exact .inl (by rw [lowerChar, if_pos low, lower])
  · obtain rfl : c = Char.ofNat 0x17F := by rw [← long, Char.ofNat_toNat]
    exact .inr (by decide)
  · obtain rfl : c = Char.ofNat 0x130 := by rw [← dotted, Char.ofNat_toNat]
    exact .inl (by decide)
  · obtain rfl : c = Char.ofNat 0x131 := by rw [← dotless, Char.ofNat_toNat]
    exact .inr (by decide)
  · exact absurd listed (by decide)

/-- A character with the lower case of one that matches a letter of a block name matches it too. -/
theorem matchesLetter_of_lowerChar {letter c d : Char} (listed : letter ∈ blockLetters)
    (matches_ : matchesLetter letter c = true) (same : lowerChar d = lowerChar c) : matchesLetter letter d = true := by
  have lowered : ∀ letter ∈ blockLetters, letter.toLower = letter := by decide
  rcases lowerChar_of_matchesLetter listed matches_ with lower | ⟨lower, code, high, other⟩
  · have code : letter.toNat ∈ blockCodes := List.mem_append_left _ (List.mem_map_of_mem listed)
    rcases eq_of_lowerChar code (same.trans lower) with ⟨-, here⟩ | ⟨dotted, rfl⟩ | rfl
    · simp [matchesLetter, here]
    · simp [matchesLetter, dotted]
    · simp [matchesLetter, lowered d listed]
  · rcases eq_of_lowerChar code (same.trans lower) with ⟨ascii, here⟩ | ⟨-, dotted⟩ | rfl
    · have small := toNat_toLower ascii
      rw [here] at small
      omega
    · exact absurd dotted other
    · exact matches_

theorem Text.afterFolded?_append {word written : Text}
    (letters : List.Forall₂ (fun letter c => matchesLetter letter c = true) word written) (rest : Text) :
    afterFolded? word (written ++ rest) = some rest := by
  induction letters with
  | nil => rfl
  | cons matches_ _ ih => rw [List.cons_append, afterFolded?, if_pos matches_, ih]

/-- More text behind does not take a name away. -/
theorem Text.afterFolded?_append_of_some {word text rest : Text} (found : afterFolded? word text = some rest)
    (more : Text) : afterFolded? word (text ++ more) = some (rest ++ more) := by
  obtain ⟨written, rfl, letters⟩ := eq_of_afterFolded? found
  rw [List.append_assoc, afterFolded?_append letters]

theorem Text.cut?_append_of_some {stop : Char} {text before after : Text} (found : cut? stop text = some (before, after))
    (more : Text) : cut? stop (text ++ more) = some (before, after ++ more) := by
  induction text generalizing before with
  | nil => cases found
  | cons c text ih =>
    rw [cut?] at found
    rw [List.cons_append, cut?]
    split at found
    · next here =>
      cases found
      rw [if_pos here]
    · next other =>
      obtain ⟨⟨first, second⟩, later, same⟩ := Option.map_eq_some_iff.1 found
      cases same
      rw [if_neg other, ih later]
      rfl

namespace Block

theorem afterFolded?_of_sameName? {word written text rest : Text} (listed : ∀ letter ∈ word, letter ∈ blockLetters)
    (letters : List.Forall₂ (fun letter c => matchesLetter letter c = true) word written)
    (found : sameName? written text = some rest) : Text.afterFolded? word text = some rest := by
  induction letters generalizing text with
  | nil => exact found
  | @cons letter c word written here _ ih =>
    cases text with
    | nil => cases found
    | cons d text =>
      rw [sameName?] at found
      split at found
      · next same =>
        have match_ := matchesLetter_of_lowerChar (listed letter List.mem_cons_self) here same.symm
        rw [Text.afterFolded?, if_pos match_]
        exact ih (fun other member => listed other (List.mem_cons_of_mem letter member)) found
      · cases found

/-- Where a tag closes a block under the name that opened it, a tag closes a block of that kind. -/
theorem closing?_of_sameName? {word written text : Text} (block : word = "script" ∨ word = "style")
    (letters : List.Forall₂ (fun letter c => matchesLetter letter c = true) word written)
    (unclosed : closing? (Text.afterFolded? word) text = none) : closing? (sameName? written) text = none := by
  have listed : ∀ letter ∈ word, letter ∈ blockLetters := by rcases block with rfl | rfl <;> decide
  unfold closing? at *
  cases slash : Text.after? "</" text with
  | none => rfl
  | some named =>
    rw [slash, Option.bind_eq_bind, Option.bind_some] at unclosed
    rw [Option.bind_eq_bind, Option.bind_some]
    cases same : sameName? written named with
    | none => rfl
    | some head =>
      rw [afterFolded?_of_sameName? listed letters same] at unclosed
      exact unclosed

/-- What an opening tag is read as: a name of the kind that was asked for, and the rest of the text as contents. -/
theorem exists_of_opening? {word text written contents : Text} (found : opening? word text = some (written, contents)) :
    List.Forall₂ (fun letter c => matchesLetter letter c = true) word written ∧ contents <:+ text := by
  unfold opening? at found
  simp only [bind, Option.bind_eq_some_iff] at found
  obtain ⟨named, opened, head, read, ending⟩ := found
  obtain ⟨start, whole, letters⟩ := Text.eq_of_afterFolded? read
  split at ending
  · cases ending
  · obtain ⟨⟨inside, after⟩, cut, same⟩ := Option.bind_eq_some_iff.1 ending
    simp only [Option.some.injEq, Prod.mk.injEq] at same
    obtain ⟨rfl, rfl⟩ := same
    have taken : named.take word.length = start := by rw [whole, letters.length_eq, List.take_left]
    rw [taken]
    refine ⟨letters, ?_⟩
    rw [Text.eq_of_after? opened, whole, Text.eq_of_cut? cut]
    exact ⟨"<" ++ start ++ inside ++ ['>'], by simp⟩

/-- A text without closing tags of scripts and styles holds no block. -/
theorem absent_guarded_of_unclosed {html : Text}
    (unclosed : ∀ word : Text, word = "script" ∨ word = "style" → Pattern.Absent (closing? (Text.afterFolded? word)) html) :
    Pattern.Absent guarded html := by
  have contentless {word written contents : Text} (block : word = "script" ∨ word = "style") {text : Text}
      (part : text <:+ html) (found : opening? word text = some (written, contents)) :
      Pattern.seek? (closing? (sameName? written)) contents = none := by
    obtain ⟨letters, suffix⟩ := exists_of_opening? found
    apply Pattern.seek?_of_absent
    intro before c after whole
    obtain ⟨front, same⟩ := suffix.trans part
    apply closing?_of_sameName? block letters
    exact unclosed word block (front ++ before) c after (by rw [← same, whole, List.append_assoc])
  intro before c after whole
  have part : c :: after ++ [] <:+ html := ⟨before, by rw [whole, List.append_nil]⟩
  unfold guarded
  cases script : opening? "script" (c :: after ++ []) with
  | some found =>
    obtain ⟨written, contents⟩ := found
    have nothing := contentless (.inl rfl) part script
    rw [Option.some_or, Option.bind_eq_bind, Option.bind_some]
    dsimp only
    rw [nothing]
    rfl
  | none =>
    cases style : opening? "style" (c :: after ++ []) with
    | some found =>
      obtain ⟨written, contents⟩ := found
      have nothing := contentless (.inr rfl) part style
      rw [Option.none_or, Option.bind_eq_bind, Option.bind_some]
      dsimp only
      rw [nothing]
      rfl
    | none => rfl

/-- The text of a closing tag: no angle bracket opens within it, and it is read in front of any text. -/
theorem exists_of_closing? {word text rest : Text} (block : word = "script" ∨ word = "style")
    (found : closing? (Text.afterFolded? word) text = some ((), rest)) :
    ∃ inside, text = '<' :: inside ++ rest ∧ '<' ∉ inside ∧
      ∀ more, closing? (Text.afterFolded? word) ('<' :: inside ++ more) = some ((), more) := by
  simp only [closing?, bind, Option.bind_eq_some_iff, Option.some.injEq, Prod.mk.injEq, true_and] at found
  obtain ⟨named, slash, head, read, after, ends, rfl⟩ := found
  obtain ⟨written, rfl, letters⟩ := Text.eq_of_afterFolded? read
  obtain ⟨space, blank, whole⟩ := Text.exists_eq_trimLeft head
  rw [Text.eq_of_after? ends] at whole
  have noAngle : '<' ∉ written := by
    intro angle
    have foreign : ∀ letter ∈ word, matchesLetter letter '<' = false := by rcases block with rfl | rfl <;> decide
    obtain ⟨letter, member, matches_⟩ := exists_of_matches letters angle
    rw [foreign letter member] at matches_
    cases matches_
  refine ⟨'/' :: written ++ space ++ ['>'], ?_, ?_, fun more => ?_⟩
  · rw [Text.eq_of_after? slash, whole]
    simp
  · simp only [List.mem_append, List.mem_cons, List.not_mem_nil, or_false, not_or]
    refine ⟨⟨⟨by decide, noAngle⟩, fun angle => ?_⟩, by decide⟩
    exact absurd (blank '<' angle) (by decide)
  · have front : '<' :: ('/' :: written ++ space ++ ['>']) ++ more = "</" ++ (written ++ (space ++ '>' :: more)) := by
      simp
    have named := Text.afterFolded?_append letters (space ++ '>' :: more)
    have angle := Text.trimLeft_append_cons blank (c := '>') (by decide) more
    rw [closing?, front, Text.after?_append, Option.bind_eq_bind, Option.bind_some, named, Option.bind_some, angle]
    rfl

/-- A closing tag lies on one side of the angle bracket that opens what follows. -/
theorem passes_closing? {word piece rest : Text} (block : word = "script" ∨ word = "style")
    (unclosed : Pattern.Absent (closing? (Text.afterFolded? word)) piece) (border : ∀ c, rest.head? = some c → c = '<') :
    Pattern.Passes (closing? (Text.afterFolded? word)) piece rest := by
  intro before c after whole
  cases found : closing? (Text.afterFolded? word) (c :: after ++ rest) with
  | none => rfl
  | some result =>
    obtain ⟨⟨⟩, more⟩ := result
    obtain ⟨inside, same, noAngle, reads⟩ := exists_of_closing? block found
    have here := unclosed before c after whole
    obtain ⟨rfl, later⟩ := List.cons.inj same
    rcases List.append_eq_append_iff.1 later with ⟨gap, longer, remains⟩ | ⟨gap, longer, remains⟩
    · cases gap with
      | nil =>
        rw [List.append_nil] at longer
        rw [List.append_nil, ← longer, ← List.append_nil ('<' :: inside), reads] at here
        cases here
      | cons d gap =>
        obtain rfl := border d (by rw [remains]; rfl)
        exact absurd (by rw [longer]; simp) noAngle
    · rw [longer, List.append_nil, ← List.cons_append, reads] at here
      cases here

/-! ### Blocks in a longer text -/

theorem sameName?_append_of_some {written text rest : Text} (found : sameName? written text = some rest) (more : Text) :
    sameName? written (text ++ more) = some (rest ++ more) := by
  induction written generalizing text with
  | nil =>
    cases found
    rfl
  | cons c written ih =>
    cases text with
    | nil => cases found
    | cons d text =>
      rw [sameName?] at found
      rw [List.cons_append, sameName?]
      split at found
      · next same =>
        rw [if_pos same]
        exact ih found
      · cases found

theorem persists_closing? {readName : Text → Option Text}
    (stable : ∀ text rest more, readName text = some rest → readName (text ++ more) = some (rest ++ more)) :
    Pattern.Persists (closing? readName) := by
  intro text more nothing
  cases found : closing? readName text with
  | none => rfl
  | some result =>
    simp only [closing?, bind, Option.bind_eq_some_iff, Option.some.injEq] at found
    obtain ⟨named, slash, head, read, rest, ends, rfl⟩ := found
    have solid : Text.trimLeft head ≠ [] := by
      rw [Text.eq_of_after? ends]
      exact List.cons_ne_nil '>' rest
    rw [closing?, Text.after?_append_of_some slash, Option.bind_eq_bind, Option.bind_some, stable _ _ _ read,
      Option.bind_some, Text.trimLeft_append solid, Text.after?_append_of_some ends] at nothing
    cases nothing

theorem opening?_append_of_some {word text name contents : Text} (found : opening? word text = some (name, contents))
    (more : Text) : opening? word (text ++ more) = some (name, contents ++ more) := by
  unfold opening? at found ⊢
  simp only [bind, Option.bind_eq_some_iff] at found
  obtain ⟨named, opened, head, read, ending⟩ := found
  split at ending
  · cases ending
  · next boundary =>
    obtain ⟨⟨inside, after⟩, cut, same⟩ := Option.bind_eq_some_iff.1 ending
    simp only [Option.some.injEq, Prod.mk.injEq] at same
    obtain ⟨rfl, rfl⟩ := same
    have first : (head ++ more).head? = head.head? := by
      rw [Text.eq_of_cut? cut, List.append_assoc]
      cases inside <;> rfl
    have taken : (named ++ more).take word.length = named.take word.length := by
      obtain ⟨written, whole, letters⟩ := Text.eq_of_afterFolded? read
      rw [whole, List.append_assoc, letters.length_eq, List.take_left, List.take_left]
    rw [Text.after?_append_of_some opened, Option.bind_eq_bind, Option.bind_some, Text.afterFolded?_append_of_some read,
      Option.bind_some, first, if_neg boundary, Text.cut?_append_of_some cut, taken]
    rfl

/-- No text opens both a script and a style. -/
theorem opening?_style_of_script {text : Text} {found : Text × Text} (script : opening? "script" text = some found) :
    opening? "style" text = none := by
  simp only [opening?, bind, Option.bind_eq_some_iff] at script
  obtain ⟨named, opened, head, read, -⟩ := script
  obtain ⟨written, rfl, letters⟩ := Text.eq_of_afterFolded? read
  obtain ⟨c, more, -, later, rfl⟩ := List.forall₂_cons_left_iff.1 letters
  obtain ⟨d, more, second, -, rfl⟩ := List.forall₂_cons_left_iff.1 later
  have other : matchesLetter 't' d = false := by
    change matchesLetter 'c' d = true at second
    have lower : d.toLower = 'c' := by simpa [matchesLetter] using second
    simp [matchesLetter, lower]
  have unread : Text.afterFolded? "style" (c :: d :: more ++ head) = none := by
    change (if matchesLetter 's' c then
      if matchesLetter 't' d then Text.afterFolded? "yle" (more ++ head) else none else none) = none
    rw [other, if_neg Bool.false_ne_true, ite_self]
  rw [opening?, opened, Option.bind_eq_bind, Option.bind_some, unread]
  rfl

/-- A block at the front of a text is there whatever follows the text. -/
theorem persists_guarded : Pattern.Persists guarded := by
  have closes {name contents more : Text}
      (unclosed : Pattern.seek? (closing? (sameName? name)) (contents ++ more) = none) :
      Pattern.seek? (closing? (sameName? name)) contents = none :=
    (@persists_closing? (sameName? name) fun _ _ more found =>
      sameName?_append_of_some found more).seek?_eq_none unclosed
  intro text more nothing
  unfold guarded at nothing ⊢
  cases opens : (opening? "script" text).or (opening? "style" text) with
  | none => rfl
  | some found =>
    obtain ⟨name, contents⟩ := found
    have still : (opening? "script" (text ++ more)).or (opening? "style" (text ++ more)) = some (name, contents ++ more) := by
      rcases Option.or_eq_some_iff.1 opens with script | ⟨-, style⟩
      · rw [opening?_append_of_some script, Option.some_or]
      · have styled := opening?_append_of_some style more
        cases script : opening? "script" (text ++ more) with
        | none => rw [styled, Option.none_or]
        | some other =>
          rw [opening?_style_of_script script] at styled
          cases styled
    rw [still] at nothing
    rw [Option.bind_eq_bind, Option.bind_some] at nothing ⊢
    dsimp only at nothing ⊢
    cases unclosed : Pattern.seek? (closing? (sameName? name)) (contents ++ more) with
    | none => rw [closes unclosed]; rfl
    | some found =>
      rw [unclosed] at nothing
      cases nothing

end Block

end ComponentPages
