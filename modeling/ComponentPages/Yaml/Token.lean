import ComponentPages.Yaml.Quoted

/-!
Tokens of YAML, and the reading of those that are marked by a character: anchors, aliases, tags and
directives.
-/
namespace ComponentPages

namespace Yaml

/-- A tag as written: a handle and what follows it, or a tag spelled out. -/
structure TagName where
  handle : Option Text := none
  suffix : Text
deriving DecidableEq

inductive Directive where
  | version (major : Nat)
  | handle (handle stem : Text)
  | unknown
deriving DecidableEq

inductive Token where
  | directive (directive : Directive)
  | documentStart | documentEnd
  | blockSequence | blockMapping | blockEnd
  | flowSequence | flowSequenceEnd | flowMapping | flowMappingEnd
  | blockEntry | flowEntry | key | value
  | alias (name : Text)
  | anchor (name : Text)
  | tag (name : TagName)
  | scalar (plain : Bool) (text : Text)
deriving DecidableEq

namespace Token

/-- Characters of anchors, handles and directive names. -/
def isNamePart (c : Char) : Bool := c.isAlphanum || c == '-' || c == '_'

/-- Characters of a tag that stand for themselves or begin an escape. -/
def isTagPart (c : Char) : Bool := c.isAlphanum || "-;/?:@&=+$,_.!~*'()[]%".toList.contains c

/-- Reads the name of an anchor or an alias, given the cursor at its mark. -/
def readName (cursor : Cursor) : Except Flaw (Text × Cursor) :=
  let (name, next) := cursor.advance.run isNamePart
  let ended := wordEnds next.peek || next.peek.any fun c => "?:,]\x7d%@".toList.contains c || c.toNat == 0x60
  if name.isEmpty || !ended then .error .malformed else .ok (name, next)

/-- Consecutive octets written with a percent sign each, and what follows them. -/
def octets : Text → Except Flaw (List UInt8 × Text)
  | '%' :: high :: low :: rest =>
    match Numeral.hex? [high, low] with
    | none => .error .malformed
    | some code => do
      let (more, last) ← octets rest
      .ok (code.toUInt8 :: more, last)
  | '%' :: _ => .error .malformed
  | rest => .ok ([], rest)

/-- The text of a tag with its escapes read, and what follows it. A run of escapes is one text in UTF-8. -/
def tagText (text : Text) : Except Flaw (Text × Text) :=
  match text with
  | [] => .ok ([], [])
  | c :: rest =>
    if !isTagPart c then .ok ([], c :: rest)
    else if c = '%' then do
      let (found, last) ← octets (c :: rest)
      match String.fromUTF8? ⟨found.toArray⟩ with
      | none => .error .malformed
      | some read =>
        if _shorter : last.length < rest.length + 1 then
          let (more, final) ← tagText last
          .ok (read.toList ++ more, final)
        else .error .malformed
    else do
      let (more, final) ← tagText rest
      .ok (c :: more, final)
termination_by text.length

/-- Reads the text of a tag, which is not empty. -/
def readTagText (cursor : Cursor) : Except Flaw (Text × Cursor) := do
  let (text, rest) ← tagText cursor.rest
  if rest.length = cursor.rest.length then .error .malformed
  else .ok (text, cursor.forward (cursor.rest.length - rest.length))

/-- Reads a handle: an exclamation mark, or a name between two of them. -/
def readHandle (cursor : Cursor) : Except Flaw (Text × Cursor) :=
  if cursor.peek ≠ some '!' then .error .malformed
  else if cursor.peekAt 1 = some ' ' then .ok (['!'], cursor.advance)
  else
    let (name, next) := cursor.advance.run isNamePart
    if next.peek = some '!' then .ok ('!' :: name ++ ['!'], next.advance) else .error .malformed

/-- Reads a tag, given the cursor at its exclamation mark. -/
def readTag (cursor : Cursor) : Except Flaw (TagName × Cursor) := do
  let (name, next) ←
    if cursor.peekAt 1 = some '<' then do
      let (suffix, next) ← readTagText (cursor.forward 2)
      if next.peek = some '>' then pure (({ suffix } : TagName), next.advance) else .error .malformed
    else if wordEnds (cursor.peekAt 1) then pure (({ suffix := ['!'] } : TagName), cursor.advance)
    else do
      let word := (cursor.rest.drop 1).takeWhile fun c => !lineOrSpace (some c)
      let (handle, next) ← if word.contains '!' then readHandle cursor else pure (['!'], cursor.advance)
      let (suffix, last) ← readTagText next
      pure (({ handle := some handle, suffix } : TagName), last)
  if lineOrSpace next.peek then .ok (name, next) else .error .malformed

/-- Reads a number of a version. -/
def readNumber (cursor : Cursor) : Except Flaw (Nat × Cursor) :=
  let (digits, next) := cursor.run Char.isDigit
  match Text.toNat? digits with
  | some number => .ok (number, next)
  | none => .error .malformed

/-- Reads a directive, given the cursor at its percent sign. -/
def readDirective (cursor : Cursor) : Except Flaw (Directive × Cursor) := do
  let (name, afterName) := cursor.advance.run isNamePart
  if name.isEmpty || !lineOrSpace afterName.peek then .error .malformed
  else
    let (meant, next) ←
      if name = "YAML" then do
        let (major, point) ← readNumber afterName.skipSpaces
        if point.peek ≠ some '.' then .error .malformed
        else
          let (_, next) ← readNumber point.advance
          if lineOrSpace next.peek then pure (Directive.version major, next) else .error .malformed
      else if name = "TAG" then do
        let (handle, afterHandle) ← readHandle afterName.skipSpaces
        if afterHandle.peek ≠ some ' ' then .error .malformed
        else
          let (stem, next) ← readTagText afterHandle.skipSpaces
          if lineOrSpace next.peek then pure (Directive.handle handle stem, next) else .error .malformed
      else pure (Directive.unknown, afterName.skipLine)
    .ok (meant, ← next.endOfLine)

end Token

end Yaml

end ComponentPages
