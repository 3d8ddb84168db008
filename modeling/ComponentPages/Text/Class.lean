import ComponentPages.Text.Letters
import ComponentPages.Text.Cases
import ComponentPages.Text.Printable

/-!
Classes of characters. White space, letters, word characters and upper case follow Unicode; identifiers and
the names of components are ASCII.
-/
namespace ComponentPages

/-- White space: the Unicode white space characters and the four information separators U+001C to U+001F. -/
def isBlank (c : Char) : Bool :=
  let code := c.toNat
  (9 ≤ code && code ≤ 13) || (28 ≤ code && code ≤ 32) || code == 0x85 || code == 0xA0 || code == 0x1680 ||
    (0x2000 ≤ code && code ≤ 0x200A) || code == 0x2028 || code == 0x2029 || code == 0x202F ||
    code == 0x205F || code == 0x3000

def isLetter (c : Char) : Bool :=
  c.isAlpha || (128 ≤ c.toNat && withinEdges letterEdges c.toNat)

/-- A word character is a letter, a numeral or an underscore. -/
def isWord (c : Char) : Bool :=
  c.isAlphanum || c == '_' ||
    (128 ≤ c.toNat && (withinEdges letterEdges c.toNat || withinEdges numeralEdges c.toNat))

def isUpper (c : Char) : Bool :=
  c.isUpper || (128 ≤ c.toNat && upperRuns.any fun (first, last, step) =>
    first ≤ c.toNat && c.toNat ≤ last && (c.toNat - first) % step == 0)

/-- Whether displayed text shows the character as it is. -/
def isPrintable (c : Char) : Bool :=
  if c.toNat < 128 then 32 ≤ c.toNat && c.toNat ≤ 126 else withinEdges printableEdges c.toNat

/-- Value of a decimal digit of any script. -/
def digitValue? (c : Char) : Option Nat :=
  if c.isDigit then some (c.toNat - 48)
  else (decimalZeros.find? fun base => base ≤ c.toNat && c.toNat ≤ base + 9).map (c.toNat - ·)

def isIdentifierStart (c : Char) : Bool := c.isAlpha || c == '_'

def isIdentifierPart (c : Char) : Bool := c.isAlphanum || c == '_'

def isQuote (c : Char) : Bool := c == '\'' || c == '"'

def isSlugPart (c : Char) : Bool := isWord c || c == '-'

/-- Simple lower case of one character. -/
def lowerChar (c : Char) : Char :=
  if c.toNat < 128 then c.toLower
  else if c.toNat == 0x130 then 'i'
  else
    match lowerRuns.find? fun (first, last, step, _) =>
      first ≤ c.toNat && c.toNat ≤ last && (c.toNat - first) % step == 0 with
    | some (_, _, _, distance) => Char.ofNat ((c.toNat : Int) + distance).toNat
    | none => c

/-- Whether a character matches a lower-case ASCII letter when case is ignored: the two ASCII cases, and the
long s, the dotted and dotless i and the kelvin sign, which fold to an ASCII letter. -/
def matchesLetter (letter c : Char) : Bool :=
  c.toLower == letter ||
    (letter == 's' && c.toNat == 0x17F) ||
    (letter == 'i' && (c.toNat == 0x130 || c.toNat == 0x131)) ||
    (letter == 'k' && c.toNat == 0x212A)

end ComponentPages
