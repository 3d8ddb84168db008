import ComponentPages.Proofs.Markup.Block
import ComponentPages.Proofs.Attribute.Spelling

/-!
Heads of tags. A printed head is read up to the `>` that ends it, and scanned into the attributes it was printed
from.
-/
namespace ComponentPages

namespace TagHead

/-- Characters that neither end a head nor hide what follows are passed over. -/
theorem split?_append {piece : Text} (flat : ∀ c ∈ piece, c ≠ '>' ∧ isQuote c = false ∧ Placeholder.isBrace c = false)
    (braces : Nat) (rest : Text) :
    split? none braces (piece ++ rest) = (split? none braces rest).map (prepend piece) := by
  induction piece with
  | nil => exact (map_prepend_nil _).symm
  | cons c piece ih =>
    obtain ⟨noAngle, noQuote, noBrace⟩ := flat c List.mem_cons_self
    simp only [Placeholder.isBrace, Bool.or_eq_false_iff, beq_eq_false_iff_ne] at noBrace
    rw [List.cons_append, split?]
    simp only [noAngle, false_and, if_false, noQuote, Bool.false_eq_true, noBrace.1, noBrace.2]
    rw [ih fun d member => flat d (List.mem_cons_of_mem c member), Option.map_map]
    cases split? none braces rest <;> rfl

theorem split?_inside {quote : Char} {piece : Text} (free : ∀ c ∈ piece, c ≠ quote) (braces : Nat) (rest : Text) :
    split? (some quote) braces (piece ++ rest) = (split? (some quote) braces rest).map (prepend piece) := by
  induction piece with
  | nil => exact (map_prepend_nil _).symm
  | cons c piece ih =>
    rw [List.cons_append, split?]
    simp only [free c List.mem_cons_self, if_false]
    rw [ih fun d member => free d (List.mem_cons_of_mem c member), Option.map_map]
    cases split? (some quote) braces rest <;> rfl

theorem split?_quoted {quote : Char} (quotes : isQuote quote = true) {piece : Text} (free : ∀ c ∈ piece, c ≠ quote)
    (braces : Nat) (rest : Text) :
    split? none braces (quote :: piece ++ quote :: rest) =
      (split? none braces rest).map (prepend (quote :: piece ++ [quote])) := by
  have plain : quote ≠ '>' ∧ quote ≠ '\x7b' ∧ quote ≠ '\x7d' := by
    rcases isQuote_iff.1 quotes with rfl | rfl <;> decide
  rw [List.cons_append, split?]
  simp only [plain, false_and, if_false, quotes, if_true]
  rw [split?_inside free, split?]
  simp only [if_true]
  cases split? none braces rest <;> simp [prepend, Prod.map]

theorem split?_braces {piece : Text} (flat : ∀ c ∈ piece, c ≠ '>' ∧ isQuote c = false ∧ Placeholder.isBrace c = false)
    (rest : Text) :
    split? none 0 ('\x7b' :: piece ++ '\x7d' :: rest) =
      (split? none 0 rest).map (prepend ('\x7b' :: piece ++ ['\x7d'])) := by
  rw [List.cons_append, split?]
  simp only [show ('\x7b' : Char) ≠ '>' by decide, false_and, if_false, show isQuote '\x7b' = false by decide,
    Bool.false_eq_true, if_true]
  rw [split?_append flat, split?]
  simp only [show ('\x7d' : Char) ≠ '>' by decide, false_and, if_false, show isQuote '\x7d' = false by decide,
    Bool.false_eq_true, if_true, show ('\x7d' : Char) ≠ '\x7b' by decide]
  cases split? none 0 rest <;> simp [prepend, Prod.map]

theorem flat_of_isConstantPart {c : Char} (part : isConstantPart c = true) :
    c ≠ '>' ∧ isQuote c = false ∧ Placeholder.isBrace c = false := by
  simp only [isConstantPart, isAngle, Bool.and_eq_true, Bool.not_eq_true', Bool.or_eq_false_iff,
    beq_eq_false_iff_ne] at part
  exact ⟨part.1.1.1.2, part.1.2, part.1.1.2⟩

theorem flat_of_isExpressionPart {c : Char} (part : isExpressionPart c = true) :
    c ≠ '>' ∧ isQuote c = false ∧ Placeholder.isBrace c = false := by
  simp only [isExpressionPart, isAngle, Bool.and_eq_true, Bool.not_eq_true', Bool.or_eq_false_iff,
    beq_eq_false_iff_ne, bne_iff_ne] at part
  exact ⟨part.1.1.1.1.2, part.1.1.2, part.1.1.1.2⟩

theorem split?_mention {mention : Mention} (sound : mention.isSound = true) (rest : Text) :
    split? none 0 (mention.print ++ rest) = (split? none 0 rest).map (prepend mention.print) := by
  simp only [Mention.isSound, Bool.and_eq_true, List.all_eq_true] at sound
  obtain ⟨⟨-, named⟩, valued⟩ := sound
  have start : ∀ c ∈ ' ' :: mention.name ++ ['='], c ≠ '>' ∧ isQuote c = false ∧ Placeholder.isBrace c = false := by
    intro c member
    simp only [List.cons_append, List.mem_cons, List.mem_append, List.not_mem_nil, or_false] at member
    rcases member with rfl | inName | rfl
    · decide
    · exact flat_of_isConstantPart (isConstantPart_of_isMentionPart (named c inName))
    · decide
  have whole : mention.print ++ rest = (' ' :: mention.name ++ ['=']) ++ (mention.written.print ++ rest) := by
    simp [Mention.print]
  have value : split? none 0 (mention.written.print ++ rest) =
      (split? none 0 rest).map (prepend mention.written.print) := by
    cases form : mention.written with
    | constant quote text =>
      rw [form] at valued
      simp only [Written.isSound, Bool.and_eq_true, List.all_eq_true] at valued
      have free : ∀ c ∈ text, c ≠ quote := by
        intro c member same
        have noQuote := (flat_of_isConstantPart (valued.2 c member)).2.1
        rw [same, valued.1] at noQuote
        cases noQuote
      have quoted := split?_quoted valued.1 free 0 rest
      simpa [Written.print] using quoted
    | expression text =>
      rw [form] at valued
      simp only [Written.isSound, List.all_eq_true] at valued
      have braced := split?_braces (fun c member => flat_of_isExpressionPart (valued c member)) rest
      simpa [Written.print] using braced
  rw [whole, split?_append start, value, map_prepend_prepend]
  simp [Mention.print]

/-- A printed head is read whole. -/
theorem read?_printHead {mentions : List Mention} (sound : ∀ mention ∈ mentions, mention.isSound = true)
    (closed : Bool) (body : Text) :
    read? (printHead mentions closed ++ '>' :: body) = some (printHead mentions closed, body) := by
  unfold read? printHead
  induction mentions with
  | nil => cases closed <;> rfl
  | cons mention mentions ih =>
    have later := ih fun other member => sound other (List.mem_cons_of_mem mention member)
    rw [List.flatMap_cons, List.append_assoc, List.append_assoc, split?_mention (sound mention List.mem_cons_self),
      ← List.append_assoc, later, List.append_assoc]
    rfl

theorem last_of_print {mention : Mention} (sound : mention.isSound = true) :
    ∃ start c, mention.print = start ++ [c] ∧ isBlank c = false ∧ c ≠ '/' := by
  simp only [Mention.isSound, Bool.and_eq_true] at sound
  cases form : mention.written with
  | constant quote text =>
    have quotes : isQuote quote = true := by
      have valued := sound.2
      rw [form, Written.isSound, Bool.and_eq_true] at valued
      exact valued.1
    refine ⟨' ' :: mention.name ++ '=' :: quote :: text, quote, by simp [Mention.print, form, Written.print], ?_⟩
    rcases isQuote_iff.1 quotes with rfl | rfl <;> decide
  | expression text =>
    exact ⟨' ' :: mention.name ++ '=' :: '\x7b' :: text, '\x7d', by simp [Mention.print, form, Written.print],
      by decide, by decide⟩

theorem trimRight_print {mentions : List Mention} (sound : ∀ mention ∈ mentions, mention.isSound = true) :
    Text.trimRight (mentions.flatMap Mention.print) = mentions.flatMap Mention.print := by
  rcases List.eq_nil_or_concat mentions with rfl | ⟨start, last, rfl⟩
  · rfl
  · obtain ⟨front, c, whole, solid, -⟩ := last_of_print (sound last (by simp))
    rw [List.concat_eq_append, List.flatMap_append, List.flatMap_singleton, whole, ← List.append_assoc]
    exact Text.trimRight_concat_of_not_blank solid _

theorem closesItself_printHead {mentions : List Mention} (sound : ∀ mention ∈ mentions, mention.isSound = true)
    (closed : Bool) : closesItself (printHead mentions closed) = closed := by
  unfold closesItself printHead
  cases closed with
  | true =>
    have ending : mentions.flatMap Mention.print ++ (if true then " /".toList else []) =
        (mentions.flatMap Mention.print ++ [' ']) ++ ['/'] := by simp
    rw [ending, Text.trimRight_concat_of_not_blank (by decide)]
    simp
  | false =>
    rw [if_neg Bool.false_ne_true, List.append_nil, trimRight_print sound]
    rcases List.eq_nil_or_concat mentions with rfl | ⟨start, last, rfl⟩
    · rfl
    · obtain ⟨front, c, whole, -, other⟩ := last_of_print (sound last (by simp))
      rw [List.concat_eq_append, List.flatMap_append, List.flatMap_singleton, whole]
      simp [other]

end TagHead

namespace Written

/-- What scanning makes of a value. -/
def value : Written → Quoting × Text
  | .constant quote text => (.quoted quote, text)
  | .expression text => (.braces, text)

theorem print_begins {written : Written} (sound : written.isSound = true) :
    ∃ first rest, written.print = first :: rest ∧ isBlank first = false ∧
      ∀ more, Attribute.readValue first (rest ++ more) = (written.value, more) := by
  cases written with
  | constant quote text =>
    simp only [isSound, Bool.and_eq_true, List.all_eq_true] at sound
    obtain ⟨quotes, parts⟩ := sound
    have free : ∀ c ∈ text, c ≠ quote := by
      rintro c member rfl
      have noQuote := (TagHead.flat_of_isConstantPart (parts c member)).2.1
      rw [quotes] at noQuote
      cases noQuote
    exact ⟨quote, text ++ [quote], rfl, (isBlank_of_isQuote quotes), Attribute.readValue_quoted quotes free⟩
  | expression text =>
    simp only [isSound, List.all_eq_true] at sound
    have flat : ∀ c ∈ text, isQuote c = false ∧ c ≠ '\x7b' ∧ c ≠ '\x7d' := by
      intro c member
      obtain ⟨-, noQuote, noBrace⟩ := TagHead.flat_of_isExpressionPart (sound c member)
      simp only [Placeholder.isBrace, Bool.or_eq_false_iff, beq_eq_false_iff_ne] at noBrace
      exact ⟨noQuote, noBrace⟩
    exact ⟨'\x7b', text ++ ['\x7d'], rfl, by decide, Attribute.readValue_braces (.of_flat flat)⟩

end Written

namespace Mention

def scanned (mention : Mention) : Attribute :=
  ⟨mention.name, some mention.written.value, mention.name ++ '=' :: mention.written.print⟩

theorem step_print {mention : Mention} (sound : mention.isSound = true) (rest : Text) :
    Attribute.step (mention.print ++ rest) = .found mention.scanned rest := by
  simp only [isSound, Bool.and_eq_true, List.all_eq_true, bne_iff_ne, isMentionPart] at sound
  obtain ⟨⟨nonempty, named⟩, valued⟩ := sound
  obtain ⟨first, value, printed, solid, reads⟩ := Written.print_begins valued
  have name : Attribute.IsName mention.name := ⟨nonempty, fun c member => (named c member).1⟩
  have nothing : IsSpace [] := by decide
  have spelled : Attribute.Spelled mention.scanned rest := by
    simpa [scanned, printed] using Attribute.Spelled.valued name nothing nothing solid (reads rest)
  have space : IsSpace [' '] := by decide
  have whole : mention.print ++ rest = [' '] ++ (mention.scanned.raw ++ rest) := by simp [print, scanned]
  rw [whole, ← Attribute.step_trimLeft, Text.trimLeft_append_of_space space, Attribute.step_trimLeft, spelled.step_eq]

end Mention

namespace Attribute

/-- A printed head is scanned into its attributes, and no name lacks a value. -/
theorem scan_printHead {mentions : List Mention} (sound : ∀ mention ∈ mentions, mention.isSound = true)
    (closed : Bool) : scan (printHead mentions closed) = (mentions.map Mention.scanned, none) := by
  unfold printHead
  induction mentions with
  | nil =>
    cases closed with
    | true =>
      have skips : step " /" = .skipped [] := rfl
      exact (scan_of_skipped skips).trans scan_nil
    | false => exact scan_nil
  | cons mention mentions ih =>
    have later := ih fun other member => sound other (List.mem_cons_of_mem mention member)
    rw [List.flatMap_cons, List.append_assoc, scan_of_found (Mention.step_print (sound mention List.mem_cons_self) _),
      later]
    rfl

theorem tokenize_printHead {mentions : List Mention} (sound : ∀ mention ∈ mentions, mention.isSound = true)
    (closed : Bool) : tokenize (printHead mentions closed) = mentions.map Mention.scanned := by
  rw [tokenize, scan_printHead sound]

/-- The attributes of a tag, without white space around them. -/
theorem tokenize_trim {mentions : List Mention} (sound : ∀ mention ∈ mentions, mention.isSound = true) :
    tokenize (Text.trim (mentions.flatMap Mention.print)) = mentions.map Mention.scanned := by
  have whole := tokenize_printHead sound false
  rw [printHead, if_neg Bool.false_ne_true, List.append_nil] at whole
  rw [Text.trim_of_trimRight (TagHead.trimRight_print sound), tokenize, scan_trimLeft]
  exact whole

end Attribute

end ComponentPages
