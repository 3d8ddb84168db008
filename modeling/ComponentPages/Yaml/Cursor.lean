import ComponentPages.Text.Basic

/-!
A place in a YAML text: what is left to read, and the line and column reached. Columns decide the structure of
block collections.
-/
namespace ComponentPages

namespace Yaml

/-- Why a YAML text has no meaning. -/
inductive Flaw where
  /-- The text breaks the rules of YAML, or a node has no meaning. -/
  | malformed
  /-- An escape names a code point that does not exist. -/
  | unknownCode (code : Nat)
  /-- The text of a number is not a number. -/
  | notANumber
  /-- A number has no text at all. -/
  | emptyNumber
  /-- The text of a truth value is none. -/
  | notATruthValue
  /-- The text of a date is not shaped like one. -/
  | notADate
  /-- There is no such date. -/
  | noSuchDate
deriving DecidableEq

/-- Characters that end a line. -/
def isBreak (c : Char) : Bool :=
  c == '\n' || c == '\r' || c.toNat == 0x85 || c.toNat == 0x2028 || c.toNat == 0x2029

def isSpaceOrTab (c : Char) : Bool := c == ' ' || c == '\t'

/-- Whether a line ends here. -/
def lineEnds (c : Option Char) : Bool := c.all isBreak

/-- Whether a line ends here or a space follows. -/
def lineOrSpace (c : Option Char) : Bool := c.all fun c => isBreak c || c == ' '

/-- Whether white space follows, or nothing. -/
def wordEnds (c : Option Char) : Bool := c.all fun c => isBreak c || isSpaceOrTab c

structure Cursor where
  rest : Text
  index : Nat := 0
  line : Nat := 0
  column : Nat := 0

namespace Cursor

def peek (cursor : Cursor) : Option Char := cursor.rest.head?

def peekAt (cursor : Cursor) (distance : Nat) : Option Char := cursor.rest[distance]?

/-- Moves past one character. A byte order mark takes no column, and a line feed ends the line of a carriage
return before it. -/
def advance (cursor : Cursor) : Cursor :=
  match cursor.rest with
  | [] => cursor
  | c :: rest =>
    if isBreak c && !(c == '\r' && rest.head? = some '\n') then
      ⟨rest, cursor.index + 1, cursor.line + 1, 0⟩
    else if c.toNat = 0xFEFF then ⟨rest, cursor.index + 1, cursor.line, cursor.column⟩
    else ⟨rest, cursor.index + 1, cursor.line, cursor.column + 1⟩

def forward : Nat → Cursor → Cursor
  | 0, cursor => cursor
  | count + 1, cursor => forward count cursor.advance

theorem rest_advance (cursor : Cursor) : cursor.advance.rest = cursor.rest.drop 1 := by
  unfold advance
  split
  · next empty => simp [empty]
  · next c rest found =>
    rw [found]
    split
    · rfl
    · split <;> rfl

theorem rest_forward (count : Nat) (cursor : Cursor) : (forward count cursor).rest = cursor.rest.drop count := by
  induction count generalizing cursor with
  | zero => rfl
  | succ count ih => rw [forward, ih, rest_advance, List.drop_drop, Nat.add_comm]

/-- Reads a run of characters of a class. -/
def run (class_ : Char → Bool) (cursor : Cursor) : Text × Cursor :=
  let found := cursor.rest.takeWhile class_
  (found, forward found.length cursor)

def skip (class_ : Char → Bool) (cursor : Cursor) : Cursor := (run class_ cursor).2

def skipSpaces (cursor : Cursor) : Cursor := skip (· == ' ') cursor

/-- Moves past what is left of the line. -/
def skipLine (cursor : Cursor) : Cursor := skip (!isBreak ·) cursor

/-- Reads a line break. All breaks but the two Unicode separators count as line feeds. -/
def lineBreak? (cursor : Cursor) : Option (Char × Cursor) :=
  match cursor.rest with
  | '\r' :: '\n' :: _ => some ('\n', forward 2 cursor)
  | c :: _ =>
    if c.toNat = 0x2028 ∨ c.toNat = 0x2029 then some (c, advance cursor)
    else if isBreak c then some ('\n', advance cursor)
    else none
  | [] => none

/-- Moves past a line break, if there is one. -/
def skipBreak (cursor : Cursor) : Cursor := ((lineBreak? cursor).map Prod.snd).getD cursor

/-- Whether a separator of documents stands here: three of its marks, then white space or nothing. -/
def atSeparator (mark : Char) (cursor : Cursor) : Bool :=
  cursor.rest.take 3 == [mark, mark, mark] && wordEnds (cursor.peekAt 3)

def atDocumentEdge (cursor : Cursor) : Bool := cursor.atSeparator '-' || cursor.atSeparator '.'

/-- The end of a line, perhaps with a comment before it. -/
def endOfLine (cursor : Cursor) : Except Flaw Cursor :=
  let spaced := cursor.skipSpaces
  let bare := if spaced.peek = some '#' then spaced.skipLine else spaced
  if lineEnds bare.peek then .ok bare.skipBreak else .error .malformed

end Cursor

end Yaml

end ComponentPages
