import ComponentPages.Yaml.Cursor

/-!
Plain scalars: text without quotes. One ends at a colon before white space, at a comment, at a line that is not
indented enough, and in a flow collection also at the marks of such collections.
-/
namespace ComponentPages

namespace Yaml

namespace PlainScalar

def isFlowMark (c : Char) : Bool := c == ',' || c == '[' || c == ']' || c == '\x7b' || c == '\x7d'

/-- Whether a colon ends a scalar, given what follows it. -/
def colonEnds (inFlow : Bool) (next : Option Char) : Bool := wordEnds next || (inFlow && next.any isFlowMark)

/-- How many characters belong to the scalar before white space or its end. -/
def wordLength (inFlow : Bool) : Text → Nat
  | [] => 0
  | c :: rest =>
    if isBreak c || isSpaceOrTab c || (c == ':' && colonEnds inFlow rest.head?) ||
        (inFlow && (c == '?' || isFlowMark c)) then 0
    else wordLength inFlow rest + 1

/-- White space inside a scalar: its folded form, whether a line broke, and whether the document goes on. -/
structure Gap where
  text : Text := []
  brokeLine : Bool := false
  next : Cursor

/-- Further line breaks and spaces; none if the document ends here. -/
def moreBreaks (cursor : Cursor) : Option Text × Cursor :=
  let spaced := cursor.skipSpaces
  match spaced.lineBreak? with
  | none => (some [], spaced)
  | some (c, next) =>
    if next.atDocumentEdge then (none, next)
    else if _shorter : next.rest.length < cursor.rest.length then
      let (more, last) := moreBreaks next
      (more.map (c :: ·), last)
    else (some [c], next)
termination_by cursor.rest.length

def gap (cursor : Cursor) : Gap :=
  let (spaces, after) := cursor.run (· == ' ')
  match after.lineBreak? with
  | none => { text := spaces, next := after }
  | some (c, next) =>
    if next.atDocumentEdge then { brokeLine := true, next }
    else
      match moreBreaks next with
      | (none, last) => { brokeLine := true, next := last }
      | (some more, last) =>
        let folded : Text := if c ≠ '\n' then [c] else if more.isEmpty then [' '] else []
        { text := folded ++ more, brokeLine := true, next := last }

/-- Words and gaps, given the gap before the next word and whether a line broke in it. -/
def wordsFrom (inFlow : Bool) (indent : Int) (before : Gap) : Text × Bool × Cursor :=
  let cursor := before.next
  let length := if cursor.peek = some '#' then 0 else wordLength inFlow cursor.rest
  if length = 0 then ([], before.brokeLine, cursor)
  else
    let word := before.text ++ cursor.rest.take length
    let after := gap (cursor.forward length)
    if after.text.isEmpty || after.next.peek = some '#' || (!inFlow && (after.next.column : Int) < indent) then
      (word, after.brokeLine, after.next)
    else if _shorter : after.next.rest.length < cursor.rest.length then
      let (more, brokeLine, last) := wordsFrom inFlow indent after
      (word ++ more, brokeLine, last)
    else (word, after.brokeLine, after.next)
termination_by before.next.rest.length

/-- Reads a plain scalar, and tells whether a line broke after it. The indentation is that of what it stands
in. -/
def read (inFlow : Bool) (indent : Int) (cursor : Cursor) : Text × Bool × Cursor :=
  wordsFrom inFlow (indent + 1) { next := cursor }

/-- Characters that mark something else at the start of a token. -/
def isIndicator (c : Char) : Bool := "-?:,[]\x7b\x7d#&*!|>'\"%@".toList.contains c || c.toNat == 0x60

/-- Whether a plain scalar starts here. -/
def starts (inFlow : Bool) (cursor : Cursor) : Bool :=
  match cursor.peek with
  | none => false
  | some c =>
    !(isBreak c || isSpaceOrTab c || isIndicator c) ||
      (!wordEnds (cursor.peekAt 1) && (c == '-' || (!inFlow && (c == '?' || c == ':'))))

end PlainScalar

end Yaml

end ComponentPages
