import ComponentPages.Proofs.Expression.Splitting

/-!
Reading accepts exactly the renderings, each for the one term that it writes, and evaluation gives what the term
denotes.
-/
namespace ComponentPages

namespace Expression

theorem read_of_literal {written : Text} {value : Value} (nonempty : Text.trim written ≠ [])
    (literal : literal? (Text.trim written) = some value) : read written = .literal value := by
  rw [read, if_neg nonempty, literal]

theorem read_of_split {written left right : Text} {operator : Operator} (nonempty : Text.trim written ≠ [])
    (noLiteral : literal? (Text.trim written) = none)
    (split : split? (Text.trim written) = some (operator, left, right)) :
    read written = .binary operator (read left) (read right) (Text.trim written) := by
  rw [read, if_neg nonempty, noLiteral]
  dsimp only
  split
  · next same =>
    rw [split] at same
    cases same
    rfl
  · next same =>
    rw [split] at same
    cases same

theorem read_of_enclosed {written inside : Text} (nonempty : Text.trim written ≠ [])
    (noLiteral : literal? (Text.trim written) = none) (noSplit : split? (Text.trim written) = none)
    (enclosed : enclosed? (Text.trim written) = some inside) : read written = read inside := by
  rw [read, if_neg nonempty, noLiteral]
  dsimp only
  split
  · next same =>
    rw [noSplit] at same
    cases same
  · split
    · next same =>
      rw [enclosed] at same
      cases same
      rfl
    · next same =>
      rw [enclosed] at same
      cases same

theorem read_of_word {written : Text} (nonempty : Text.trim written ≠ [])
    (noLiteral : literal? (Text.trim written) = none) (noSplit : split? (Text.trim written) = none)
    (open_ : enclosed? (Text.trim written) = none) (identifier : Text.isIdentifier (Text.trim written) = true) :
    read written = .variable (Text.trim written) := by
  rw [read, if_neg nonempty, noLiteral]
  dsimp only
  split
  · next same =>
    rw [noSplit] at same
    cases same
  · split
    · next same =>
      rw [open_] at same
      cases same
    · rw [if_pos identifier]

theorem Token.trimLeft {term : Term} {written : Text} (token : Token term written) :
    Text.trimLeft written = written := by
  obtain ⟨c, rest, rfl, solid, -⟩ := token.first
  exact Text.trimLeft_cons_of_not_blank solid rest

theorem Token.trimRight {term : Term} {written : Text} (token : Token term written) :
    Text.trimRight written = written := by
  obtain ⟨start, c, rfl, solid, -⟩ := token.last
  exact Text.trimRight_concat_of_not_blank solid start

/-- No token starts with a parenthesis. -/
theorem literal?_enclosed (inside : Text) : literal? ('(' :: inside ++ [')']) = none := by
  rw [Option.eq_none_iff_forall_ne_some]
  intro value found
  have token := (literal?_eq_some_iff (Text.trimLeft_cons_of_not_blank (by decide) _)).1 found
  rcases token.shape with ⟨sign, body, same, signed, plain⟩ | ⟨quote, body, same, quotes, -⟩
  · rcases signed with rfl | rfl
    · rw [List.nil_append] at same
      have member : '(' ∈ body := by rw [← same]; exact List.mem_cons_self
      exact absurd (plain '(' member).1 (by decide)
    · exact absurd (List.cons.inj same).1 (by decide)
  · obtain rfl := (List.cons.inj same).1
    exact absurd quotes (by decide)

/-- A word other than `true` and `false` is no literal. -/
theorem literal?_name {name : Text} (identifier : Text.isIdentifier name = true) (noTruth : name ≠ "true")
    (noFalsity : name ≠ "false") (trimmed : Text.trimLeft name = name) : literal? name = none := by
  rw [Option.eq_none_iff_forall_ne_some]
  intro value found
  have start : ∀ c ∈ name.head?, isIdentifierStart c = true := by
    intro c head
    cases name with
    | nil => simp at head
    | cons d rest =>
      obtain rfl : d = c := by simpa using head
      simp only [Text.isIdentifier, Bool.and_eq_true] at identifier
      exact identifier.1
  cases (literal?_eq_some_iff trimmed).1 found with
  | truth => exact noTruth rfl
  | falsity => exact noFalsity rfl
  | natural nonempty decimal =>
    obtain ⟨c, rest, rfl⟩ := List.exists_cons_of_ne_nil nonempty
    have letter := start c rfl
    rw [isIdentifierStart_of_isDigit (decimal c List.mem_cons_self)] at letter
    simp at letter
  | negative blank nonempty decimal => exact absurd (start '-' rfl) (by decide)
  | @string quote body quotes closed =>
    have part := (isIdentifierPart_of_isIdentifier identifier).2 quote List.mem_cons_self
    have plain := isQuote_of_isPlain (isPlain_of_isIdentifierPart part).1
    rw [quotes] at plain
    simp at plain

theorem enclosed?_name {name : Text} (identifier : Text.isIdentifier name = true) : enclosed? name = none := by
  cases name with
  | nil => rfl
  | cons c rest =>
    simp only [Text.isIdentifier, Bool.and_eq_true] at identifier
    have other : c ≠ '(' := by
      rintro rfl
      exact absurd identifier.1 (by decide)
    simp [enclosed?, other]

/-- Every rendering of a term is read as that term. -/
theorem Rendered.term?_read {level : Nat} {term : Term} {text : Text} (rendered : Rendered level term text) :
    ∀ written, Text.trim written = Text.trim text → (read written).term? = some term := by
  induction rendered with
  | @token level term token before after spaceBefore spaceAfter isToken =>
    intro written same
    have trimmed : Text.trim written = token := by
      rw [same, Text.trim_append_of_space _ spaceAfter, Text.trim, Text.trimLeft_append_of_space spaceBefore,
        isToken.trimLeft, isToken.trimRight]
    have nonempty : Text.trim written ≠ [] := by
      obtain ⟨c, rest, begins, -⟩ := isToken.first
      rw [trimmed, begins]
      exact List.cons_ne_nil c rest
    cases term with
    | literal value =>
      have literal := (literal?_eq_some_iff isToken.trimLeft).2 isToken
      rw [read_of_literal nonempty (by rw [trimmed, literal]), term?]
    | name word =>
      have noSplit : split? token = none := split?_eq_none_iff.2 isToken.scan?_eq_none
      obtain ⟨identifier, noTruth, noFalsity, rfl⟩ :
          Text.isIdentifier word = true ∧ word ≠ "true" ∧ word ≠ "false" ∧ token = word := by
        cases isToken with
        | name identifier noTruth noFalsity => exact ⟨identifier, noTruth, noFalsity, rfl⟩
      have noLiteral := literal?_name identifier noTruth noFalsity isToken.trimLeft
      have noParenthesis := enclosed?_name identifier
      rw [← trimmed] at noLiteral noSplit noParenthesis identifier
      rw [read_of_word nonempty noLiteral noSplit noParenthesis identifier, term?, trimmed]
    | binary operator left right => cases isToken
  | @enclosed level term inside before after spaceBefore spaceAfter rendered ih =>
    intro written same
    have trimmed : Text.trim written = '(' :: inside ++ [')'] := by
      rw [same, Text.trim_append_of_space _ spaceAfter, Text.trim, Text.trimLeft_append_of_space spaceBefore,
        List.cons_append, Text.trimLeft_cons_of_not_blank (by decide), ← List.cons_append,
        Text.trimRight_concat_of_not_blank (by decide)]
    have nothing : IsSpace [] := by simp [IsSpace]
    have tightest : Rendered 10 term ('(' :: inside ++ [')']) := by
      simpa using @Rendered.enclosed 10 _ _ _ _ nothing nothing rendered
    have noSplit : split? (Text.trim written) = none := by
      rw [trimmed, split?_eq_none_iff]
      intro operator
      exact tightest.scan?_eq_none (by cases operator <;> decide)
    have encloses : enclosed? (Text.trim written) = some inside := by
      rw [trimmed, List.cons_append, enclosed?, rendered.close?_append (by decide)]
      simp [Nesting.close?, prepend]
    have nonempty : Text.trim written ≠ [] := by
      rw [trimmed]
      exact List.cons_ne_nil _ _
    rw [read_of_enclosed nonempty (by rw [trimmed]; exact literal?_enclosed inside) noSplit encloses]
    exact ih inside rfl
  | @binary level operator left right leftText rightText binds leftRendered rightRendered leftIh rightIh =>
    intro written same
    have trimmed : Text.trim written = Text.trimLeft leftText ++ operator.symbol ++ Text.trimRight rightText := by
      rw [same, Text.trim, List.append_assoc, Text.trimLeft_append leftRendered.trimLeft_ne_nil, ← List.append_assoc,
        Text.trimRight_append _ rightRendered.trimRight_ne_nil]
    have leftTrimmed := leftRendered.trimLeft
    have rightTrimmed := rightRendered.trimRight
    have split : split? (Text.trim written) = some (operator, Text.trimLeft leftText, Text.trimRight rightText) := by
      rw [trimmed]
      refine split?_eq_some_iff.2 ⟨scan?_binary leftTrimmed rightTrimmed, ?_⟩
      intro looser below
      exact (Rendered.binary (Nat.le_refl _) leftTrimmed rightTrimmed).scan?_eq_none below
    have nonempty : Text.trim written ≠ [] := by
      rw [trimmed]
      exact List.append_ne_nil_of_right_ne_nil _ rightRendered.trimRight_ne_nil
    have noLiteral : literal? (Text.trim written) = none := by
      rw [Option.eq_none_iff_forall_ne_some]
      intro value literal
      have solid : Text.trimLeft (Text.trim written) = Text.trim written := by
        obtain ⟨space, c, rest, begins, blank, solid⟩ := leftRendered.begins
        rw [trimmed, begins, Text.trimLeft_append_of_space blank, Text.trimLeft_cons_of_not_blank solid,
          List.cons_append, List.cons_append, Text.trimLeft_cons_of_not_blank solid]
      have token := (literal?_eq_some_iff solid).1 literal
      rw [split?_eq_none_iff.2 token.scan?_eq_none] at split
      simp at split
    rw [read_of_split nonempty noLiteral split, term?, leftIh _ leftRendered.trim_trimLeft,
      rightIh _ (Text.trim_trimRight rightText)]

/-- White space around a rendering changes nothing. -/
theorem Rendered.spaced {level : Nat} {term : Term} {text before after : Text} (rendered : Rendered level term text)
    (spaceBefore : IsSpace before) (spaceAfter : IsSpace after) : Rendered level term (before ++ text ++ after) := by
  have nothing : IsSpace [] := by simp [IsSpace]
  have joined {left right : Text} (first : IsSpace left) (second : IsSpace right) : IsSpace (left ++ right) := by
    intro c member
    exact (List.mem_append.1 member).elim (first c) (second c)
  induction rendered generalizing before after with
  | @token level _ _ _ _ innerBefore innerAfter token =>
    have whole := @Rendered.token level _ _ _ _ (joined spaceBefore innerBefore) (joined innerAfter spaceAfter) token
    simpa using whole
  | @enclosed level _ _ _ _ innerBefore innerAfter rendered ih =>
    have whole := @Rendered.enclosed level _ _ _ _ (joined spaceBefore innerBefore) (joined innerAfter spaceAfter)
      rendered
    simpa using whole
  | binary binds leftRendered rightRendered leftIh rightIh =>
    have whole := Rendered.binary binds (leftIh spaceBefore nothing) (rightIh nothing spaceAfter)
    simpa using whole

theorem Rendered.of_trim {level : Nat} {term : Term} {text : Text} (rendered : Rendered level term (Text.trim text)) :
    Rendered level term text := by
  obtain ⟨before, after, spaceBefore, spaceAfter, whole⟩ := Text.exists_eq_trim text
  rw [whole]
  exact rendered.spaced spaceBefore spaceAfter

theorem Token.rendered {term : Term} {text : Text} (token : Token term text) (level : Nat) :
    Rendered level term text := by
  have nothing : IsSpace [] := by simp [IsSpace]
  simpa using @Rendered.token level _ _ _ _ nothing nothing token

theorem eq_of_enclosed? {text inside : Text} (found : enclosed? text = some inside) :
    text = '(' :: inside ++ [')'] := by
  unfold enclosed? at found
  split at found
  · split at found
    · next closed =>
      obtain rfl := Option.some.inj found
      rw [Nesting.eq_of_close? closed, List.cons_append]
    · simp at found
  · simp at found

/-- Nothing but renderings is read as a term. -/
theorem rendered_of_term?_read {written : Text} {term : Term} (found : (read written).term? = some term) :
    Rendered 0 term written := by
  fun_induction read written generalizing term
  case case1 => simp [term?] at found
  case case2 written text nonempty value literal =>
    obtain rfl : Term.literal value = term := Option.some.inj found
    have token := (literal?_eq_some_iff (Text.trimLeft_trim written)).1 literal
    exact (token.rendered 0).of_trim
  case case3 written text nonempty noLiteral operator left right split leftIh rightIh =>
    rw [term?] at found
    split at found
    · next leftTerm rightTerm leftFound rightFound =>
      obtain rfl := Option.some.inj found
      exact (rendered_of_split? split (leftIh leftFound) (rightIh rightFound)).of_trim
    · simp at found
  case case4 written text nonempty noLiteral noSplit inside enclosed ih =>
    have nothing : IsSpace [] := by simp [IsSpace]
    have rendered := @Rendered.enclosed 0 _ _ _ _ nothing nothing (ih found)
    rw [List.nil_append, List.append_nil, ← eq_of_enclosed? enclosed] at rendered
    exact rendered.of_trim
  case case5 written text nonempty noLiteral noSplit noParenthesis identifier =>
    rw [term?] at found
    obtain rfl := Option.some.inj found
    have noTruth : text ≠ "true" := by
      rintro same
      rw [same] at noLiteral
      exact absurd noLiteral (by decide)
    have noFalsity : text ≠ "false" := by
      rintro same
      rw [same] at noLiteral
      exact absurd noLiteral (by decide)
    exact ((Token.name identifier noTruth noFalsity).rendered 0).of_trim
  case case6 => simp [term?] at found

end Expression

end ComponentPages
