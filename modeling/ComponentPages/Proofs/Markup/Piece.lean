import ComponentPages.Expansion
import ComponentPages.Proofs.Pattern
import ComponentPages.Proofs.Text

/-!
Markup as pages write it, cut into pieces: runs of text, placeholders, and opening and closing tags of elements
and components. Nothing is said here about how tags nest. A piece is sound when no pass over a page can take a
part of it for something else.
-/
namespace ComponentPages

/-- The value of an attribute, a constant between quotes or an expression between braces. -/
inductive Written where
  | constant (quote : Char) (text : Text)
  | expression (text : Text)
deriving DecidableEq

/-- An attribute of a tag. -/
structure Mention where
  name : Text
  written : Written
deriving DecidableEq

inductive Piece where
  | text (text : Text)
  | placeholder (expression : Text)
  | opening (name : Text) (mentions : List Mention) (closed : Bool)
  | closing (name : Text)
deriving DecidableEq

/-- The characters that mask braces and mark signals while a page is compiled. -/
def isReserved (c : Char) : Bool := 0xE000 ≤ c.toNat && c.toNat ≤ 0xE003

def isAngle (c : Char) : Bool := c == '<' || c == '>'

def isTextPart (c : Char) : Bool := c != '<' && c != '\x7b' && !isReserved c

def isExpressionPart (c : Char) : Bool :=
  !isAngle c && !Placeholder.isBrace c && !isQuote c && c != '?' && !isReserved c

def isConstantPart (c : Char) : Bool := !isAngle c && !Placeholder.isBrace c && !isQuote c && !isReserved c

def isMentionPart (c : Char) : Bool := Attribute.isNamePart c && isConstantPart c

/-- A lower-case ASCII letter, then lower-case ASCII letters, digits and hyphens. -/
def isElementName : Text → Bool
  | [] => false
  | c :: rest => c.isLower && rest.all fun c => c.isLower || c.isDigit || c == '-'

/-- Whether a name is that of a block that passes leave alone, in any letter case. -/
def namesBlock (name : Text) : Bool :=
  name.map Char.toLower == "script".toList || name.map Char.toLower == "style".toList

def isTagName (name : Text) : Bool := (isPascalCase name || isElementName name) && !namesBlock name

namespace Written

def print : Written → Text
  | .constant quote text => quote :: text ++ [quote]
  | .expression text => '\x7b' :: text ++ ['\x7d']

def isConstant : Written → Bool
  | .constant _ _ => true
  | .expression _ => false

def isSound : Written → Bool
  | .constant quote text => isQuote quote && text.all isConstantPart
  | .expression text => text.all isExpressionPart

end Written

namespace Mention

def print (mention : Mention) : Text := ' ' :: mention.name ++ '=' :: mention.written.print

def isSound (mention : Mention) : Bool :=
  mention.name != [] && mention.name.all isMentionPart && mention.written.isSound

/-- The attributes of an element are constant, and none of them fetches. -/
def isStatic (mention : Mention) : Bool := mention.written.isConstant && mention.name != "fetch".toList

end Mention

/-- The head of a tag: what stands between its name and its `>`. -/
def printHead (mentions : List Mention) (closed : Bool) : Text :=
  mentions.flatMap Mention.print ++ if closed then " /".toList else []

namespace Piece

def print : Piece → Text
  | .text words => words
  | .placeholder inner => '\x7b' :: inner ++ ['\x7d']
  | .opening name mentions closed => '<' :: name ++ printHead mentions closed ++ ['>']
  | .closing name => '<' :: '/' :: name ++ ['>']

def isSound : Piece → Bool
  | .text words => words.all isTextPart
  | .placeholder inner => inner != [] && inner.all isExpressionPart
  | .opening name mentions _ =>
    isTagName name && mentions.all Mention.isSound && (isPascalCase name || mentions.all Mention.isStatic)
  | .closing name => isTagName name

end Piece

def printPieces (pieces : List Piece) : Text := pieces.flatMap Piece.print

theorem printPieces_cons (piece : Piece) (pieces : List Piece) :
    printPieces (piece :: pieces) = piece.print ++ printPieces pieces :=
  List.flatMap_cons

theorem printPieces_append (first second : List Piece) :
    printPieces (first ++ second) = printPieces first ++ printPieces second :=
  List.flatMap_append

/-- The characters of a tag name. -/
def isTagNamePart (c : Char) : Bool := c.isAlphanum || c == '-'

theorem isTagNamePart_of_isTagName {name : Text} (named : isTagName name = true) :
    ∃ c rest, name = c :: rest ∧ c.isAlpha = true ∧ ∀ d ∈ name, isTagNamePart d = true := by
  simp only [isTagName, Bool.and_eq_true, Bool.or_eq_true] at named
  cases name with
  | nil => simp [isPascalCase, isElementName] at named
  | cons c rest =>
    refine ⟨c, rest, rfl, ?_⟩
    rcases named.1 with pascal | element
    · simp only [isPascalCase, Bool.and_eq_true, List.all_eq_true] at pascal
      refine ⟨by simp [Char.isAlpha, pascal.1], ?_⟩
      intro d member
      rcases List.mem_cons.1 member with rfl | later
      · simp [isTagNamePart, Char.isAlphanum, Char.isAlpha, pascal.1]
      · simp [isTagNamePart, pascal.2 d later]
    · simp only [isElementName, Bool.and_eq_true, List.all_eq_true, Bool.or_eq_true, beq_iff_eq] at element
      refine ⟨by simp [Char.isAlpha, element.1], ?_⟩
      intro d member
      rcases List.mem_cons.1 member with rfl | later
      · simp [isTagNamePart, Char.isAlphanum, Char.isAlpha, element.1]
      · rcases element.2 d later with (lower | digit) | hyphen
        · simp [isTagNamePart, Char.isAlphanum, Char.isAlpha, lower]
        · simp [isTagNamePart, Char.isAlphanum, digit]
        · simp [isTagNamePart, hyphen]

theorem isSlugPart_of_isTagNamePart {c : Char} (part : isTagNamePart c = true) : isSlugPart c = true := by
  simp only [isTagNamePart, Bool.or_eq_true] at part
  rcases part with alphanumeric | hyphen
  · simp [isSlugPart, isWord, alphanumeric]
  · simp [isSlugPart, hyphen]

theorem ne_of_isTagNamePart {c d : Char} (part : isTagNamePart c = true) (foreign : isTagNamePart d = false) :
    c ≠ d := by
  rintro rfl
  rw [part] at foreign
  cases foreign

theorem isBlank_of_isTagNamePart {c : Char} (part : isTagNamePart c = true) : isBlank c = false := by
  simp only [isTagNamePart, Bool.or_eq_true, beq_iff_eq] at part
  rcases part with alphanumeric | rfl
  · exact isBlank_of_isIdentifierPart (by simp [isIdentifierPart, alphanumeric])
  · decide

theorem isAngle_of_isTagNamePart {c : Char} (part : isTagNamePart c = true) : isAngle c = false := by
  simp [isAngle, ne_of_isTagNamePart part (d := '<') (by decide), ne_of_isTagNamePart part (d := '>') (by decide)]

theorem isAngle_of_isConstantPart {c : Char} (part : isConstantPart c = true) : isAngle c = false := by
  simp only [isConstantPart, Bool.and_eq_true, Bool.not_eq_true'] at part
  exact part.1.1.1

theorem isAngle_of_isQuote {c : Char} (quotes : isQuote c = true) : isAngle c = false := by
  rcases isQuote_iff.1 quotes with rfl | rfl <;> decide

theorem isQuote_of_isExpressionPart {c : Char} (part : isExpressionPart c = true) : isQuote c = false := by
  simp only [isExpressionPart, Bool.and_eq_true, Bool.not_eq_true'] at part
  exact part.1.1.2

theorem isTextPart_of_isConstantPart {c : Char} (part : isConstantPart c = true) : isTextPart c = true := by
  simp only [isConstantPart, isAngle, Placeholder.isBrace, Bool.and_eq_true, Bool.not_eq_true', Bool.or_eq_false_iff,
    beq_eq_false_iff_ne] at part
  simp [isTextPart, part]

theorem isConstantPart_of_isMentionPart {c : Char} (part : isMentionPart c = true) : isConstantPart c = true := by
  simp only [isMentionPart, Bool.and_eq_true] at part
  exact part.2

namespace Mention

theorem mem_print {mention : Mention} {c : Char} (member : c ∈ mention.print) :
    c = ' ' ∨ c = '=' ∨ c ∈ mention.name ∨ c ∈ mention.written.print := by
  simp only [print, List.cons_append, List.mem_cons, List.mem_append] at member
  rcases member with blank | named | equals | valued
  · exact .inl blank
  · exact .inr (.inr (.inl named))
  · exact .inr (.inl equals)
  · exact .inr (.inr (.inr valued))

/-- A sound attribute has constant characters beside its punctuation. -/
theorem mem_print_of_isSound {mention : Mention} (sound : mention.isSound = true) {c : Char}
    (member : c ∈ mention.print) :
    isConstantPart c = true ∨ isQuote c = true ∨
      (mention.written.isConstant = false ∧ (c = '\x7b' ∨ c = '\x7d' ∨ isExpressionPart c = true)) := by
  simp only [isSound, Bool.and_eq_true, List.all_eq_true] at sound
  obtain ⟨⟨-, named⟩, valued⟩ := sound
  rcases mem_print member with rfl | rfl | inName | inValue
  · exact .inl (by decide)
  · exact .inl (by decide)
  · exact .inl (isConstantPart_of_isMentionPart (named c inName))
  · cases form : mention.written with
    | constant quote text =>
      rw [form] at valued inValue
      simp only [Written.isSound, Bool.and_eq_true, List.all_eq_true] at valued
      simp only [Written.print, List.cons_append, List.mem_cons, List.mem_append, List.not_mem_nil, or_false] at inValue
      rcases inValue with rfl | inText | rfl
      · exact .inr (.inl valued.1)
      · exact .inl (valued.2 c inText)
      · exact .inr (.inl valued.1)
    | expression text =>
      rw [form] at valued inValue
      simp only [Written.isSound, List.all_eq_true] at valued
      simp only [Written.print, List.cons_append, List.mem_cons, List.mem_append, List.not_mem_nil, or_false] at inValue
      refine .inr (.inr ⟨rfl, ?_⟩)
      rcases inValue with opened | inText | closed
      · exact .inl opened
      · exact .inr (.inr (valued c inText))
      · exact .inr (.inl closed)

end Mention

theorem mem_printHead {mentions : List Mention} {closed : Bool} {c : Char} (member : c ∈ printHead mentions closed) :
    (∃ mention ∈ mentions, c ∈ mention.print) ∨ c = ' ' ∨ c = '/' := by
  rcases List.mem_append.1 member with inMentions | ending
  · exact .inl (List.mem_flatMap.1 inMentions)
  · cases closed with
    | true => exact .inr (by simpa using ending)
    | false => simp at ending

theorem isAngle_of_mem_printHead {mentions : List Mention} (sound : ∀ mention ∈ mentions, mention.isSound = true)
    {closed : Bool} {c : Char} (member : c ∈ printHead mentions closed) : isAngle c = false := by
  rcases mem_printHead member with ⟨mention, listed, printed⟩ | rfl | rfl
  · rcases Mention.mem_print_of_isSound (sound mention listed) printed with constant | quotes | ⟨-, rfl | rfl | inside⟩
    · exact isAngle_of_isConstantPart constant
    · exact isAngle_of_isQuote quotes
    · decide
    · decide
    · simp only [isExpressionPart, Bool.and_eq_true, Bool.not_eq_true'] at inside
      exact inside.1.1.1.1
  · decide
  · decide

/-- The head of an element's tag holds no brace. -/
theorem isBrace_of_mem_printHead {mentions : List Mention} (sound : ∀ mention ∈ mentions, mention.isSound = true)
    (static : ∀ mention ∈ mentions, mention.isStatic = true) {closed : Bool} {c : Char}
    (member : c ∈ printHead mentions closed) : Placeholder.isBrace c = false := by
  rcases mem_printHead member with ⟨mention, listed, printed⟩ | rfl | rfl
  · rcases Mention.mem_print_of_isSound (sound mention listed) printed with constant | quotes | ⟨varies, -⟩
    · simp only [isConstantPart, Bool.and_eq_true, Bool.not_eq_true'] at constant
      exact constant.1.1.2
    · rcases isQuote_iff.1 quotes with rfl | rfl <;> decide
    · have constant := static mention listed
      simp [Mention.isStatic, varies] at constant
  · decide
  · decide

namespace Piece

/-- The characters after the first one of a tag, and all those of another piece, are no angle bracket that
opens a tag. -/
theorem print_eq_angle {piece : Piece} (sound : piece.isSound = true) :
    (∀ c ∈ piece.print, c ≠ '<') ∨ ∃ tail, piece.print = '<' :: tail ++ ['>'] ∧ ∀ c ∈ tail, isAngle c = false := by
  cases piece with
  | text words =>
    left
    intro c member
    simp only [isSound, List.all_eq_true, isTextPart, Bool.and_eq_true, bne_iff_ne] at sound
    exact (sound c member).1.1
  | placeholder inner =>
    left
    simp only [isSound, Bool.and_eq_true, List.all_eq_true] at sound
    intro c member
    simp only [print, List.cons_append, List.mem_cons, List.mem_append, List.not_mem_nil, or_false] at member
    rcases member with rfl | inside | rfl
    · decide
    · have part := sound.2 c inside
      simp only [isExpressionPart, isAngle, Bool.and_eq_true, Bool.not_eq_true', Bool.or_eq_false_iff,
        beq_eq_false_iff_ne] at part
      exact part.1.1.1.1.1
    · decide
  | opening name mentions closed =>
    right
    simp only [isSound, Bool.and_eq_true, List.all_eq_true] at sound
    refine ⟨name ++ printHead mentions closed, by simp [print], ?_⟩
    intro c member
    obtain ⟨-, -, -, -, parts⟩ := isTagNamePart_of_isTagName sound.1.1
    rcases List.mem_append.1 member with inName | inHead
    · exact isAngle_of_isTagNamePart (parts c inName)
    · exact isAngle_of_mem_printHead sound.1.2 inHead
  | closing name =>
    right
    refine ⟨'/' :: name, by simp [print], ?_⟩
    intro c member
    obtain ⟨-, -, -, -, parts⟩ := isTagNamePart_of_isTagName sound
    rcases List.mem_cons.1 member with rfl | inName
    · decide
    · exact isAngle_of_isTagNamePart (parts c inName)

/-- An angle bracket that opens a tag stands at the front of a tag and nowhere else. -/
theorem print_front {piece : Piece} (sound : piece.isSound = true) :
    (∀ c ∈ piece.print, c ≠ '<') ∨ ∃ tail, piece.print = '<' :: tail ∧ ∀ c ∈ tail, c ≠ '<' := by
  rcases print_eq_angle sound with free | ⟨tail, whole, free⟩
  · exact .inl free
  · refine .inr ⟨tail ++ ['>'], whole, ?_⟩
    intro c member
    rcases List.mem_append.1 member with inside | last
    · have angle := free c inside
      simp only [isAngle, Bool.or_eq_false_iff, beq_eq_false_iff_ne] at angle
      exact angle.1
    · rw [List.mem_singleton.1 last]
      decide

def isTag : Piece → Bool
  | .opening _ _ _ | .closing _ => true
  | _ => false

theorem isTag_of_print {piece : Piece} (sound : piece.isSound = true) {tail : Text}
    (whole : piece.print = '<' :: tail) : piece.isTag = true := by
  cases piece with
  | text words =>
    simp only [isSound, List.all_eq_true] at sound
    have part := sound '<' (by rw [print] at whole; rw [whole]; exact List.mem_cons_self)
    exact absurd part (by decide)
  | placeholder inner =>
    rw [print] at whole
    exact absurd (List.cons.inj whole).1 (by decide)
  | opening name mentions closed => rfl
  | closing name => rfl

/-- A pattern that begins with an angle bracket can begin at the front of a tag only. -/
theorem passes_print {α : Type} {read : Pattern α} (angled : ∀ c text, c ≠ '<' → read (c :: text) = none)
    {piece : Piece} (sound : piece.isSound = true) {rest : Text}
    (front : piece.isTag = true → read (piece.print ++ rest) = none) : Pattern.Passes read piece.print rest := by
  rcases print_front sound with free | ⟨tail, whole, free⟩
  · exact Pattern.passes_of_begins rest fun c member text => angled c text (free c member)
  · replace front := front (isTag_of_print sound whole)
    rw [whole] at front ⊢
    refine Pattern.passes_cons_iff.2 ⟨front, Pattern.passes_of_begins rest ?_⟩
    intro c member text
    exact angled c text (free c member)

end Piece

theorem absent_printPieces {α : Type} {read : Pattern α} (angled : ∀ c text, c ≠ '<' → read (c :: text) = none)
    {pieces : List Piece} (sound : ∀ piece ∈ pieces, piece.isSound = true)
    (front : ∀ before piece rest, pieces = before ++ piece :: rest → piece.isTag = true →
      read (piece.print ++ printPieces rest) = none) : Pattern.Absent read (printPieces pieces) := by
  induction pieces with
  | nil => exact Pattern.passes_nil read []
  | cons piece pieces ih =>
    rw [printPieces_cons, Pattern.absent_append_iff]
    constructor
    · exact Piece.passes_print angled (sound piece List.mem_cons_self) (front [] piece pieces rfl)
    · apply ih
      · intro other member
        exact sound other (List.mem_cons_of_mem piece member)
      · intro before other rest whole
        exact front (piece :: before) other rest (by rw [whole, List.cons_append])

end ComponentPages
