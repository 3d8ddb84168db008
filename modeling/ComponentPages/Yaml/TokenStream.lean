import ComponentPages.Yaml.BlockScalar
import ComponentPages.Yaml.PlainScalar
import ComponentPages.Yaml.Token

/-!
The tokens of a YAML text. The columns at which tokens start open and close block collections. A key need not
be marked: what stands before a colon becomes a key, so the place where it began is remembered until the colon
comes or cannot come any more.
-/
namespace ComponentPages

namespace Yaml

/-- A place where a key may have begun: the number of tokens before it and where it stands. -/
structure Candidate where
  tokens : Nat
  required : Bool
  index : Nat
  line : Nat
  column : Nat

structure TokenStream where
  cursor : Cursor
  /-- The candidates of the flow collections that are open, innermost first; the last is that of the block. -/
  levels : List (Option Candidate) := [none]
  indent : Int := -1
  indents : List Int := []
  /-- Whether a key may begin here. -/
  allowKey : Bool := true
  tokens : Array Token := #[]

namespace TokenStream

def inFlow (stream : TokenStream) : Bool := 1 < stream.levels.length

def emit (token : Token) (stream : TokenStream) : TokenStream := { stream with tokens := stream.tokens.push token }

/-- Moves past spaces, comments and line breaks, and tells whether a line broke. -/
def skipBlank (cursor : Cursor) : Cursor × Bool :=
  let spaced := cursor.skipSpaces
  let bare := if spaced.peek = some '#' then spaced.skipLine else spaced
  match bare.lineBreak? with
  | none => (bare, false)
  | some (_, next) =>
    if _shorter : next.rest.length < cursor.rest.length then ((skipBlank next).1, true) else (next, true)
termination_by cursor.rest.length

/-- Moves to the next token. -/
def settle (stream : TokenStream) : TokenStream :=
  let start :=
    if stream.cursor.index = 0 && stream.cursor.peek = some '\ufeff' then stream.cursor.advance else stream.cursor
  let (cursor, brokeLine) := skipBlank start
  { stream with cursor, allowKey := stream.allowKey || (brokeLine && !stream.inFlow) }

/-- Whether a colon can no longer make the candidate a key. -/
def isStale (cursor : Cursor) (candidate : Candidate) : Bool :=
  candidate.line != cursor.line || candidate.index + 1024 < cursor.index

/-- Drops candidates that are stale. -/
def refresh (stream : TokenStream) : Except Flaw TokenStream :=
  let stale (level : Option Candidate) := level.any (isStale stream.cursor)
  if stream.levels.any fun level => stale level && level.any Candidate.required then .error .malformed
  else .ok { stream with levels := stream.levels.map fun level => if stale level then none else level }

/-- Closes the block collections that start to the right of a column. -/
def closeBlocks (column : Int) (stream : TokenStream) : List Int → TokenStream
  | [] => { stream with indents := [] }
  | outer :: indents =>
    if column < stream.indent then closeBlocks column ({ stream with indent := outer }.emit .blockEnd) indents
    else { stream with indents := outer :: indents }

def unwind (column : Int) (stream : TokenStream) : TokenStream :=
  if stream.inFlow then stream else closeBlocks column stream stream.indents

/-- Opens a block collection at a column, unless one that starts there or further right is open; its token goes
before a number of those read already. -/
def openBlock (token : Token) (column : Int) (position : Nat) (stream : TokenStream) : TokenStream :=
  if stream.indent < column then
    { stream with
      indent := column
      indents := stream.indent :: stream.indents
      tokens := stream.tokens.extract 0 position ++ #[token] ++ stream.tokens.extract position stream.tokens.size }
  else stream

/-- Forgets the candidate of the innermost level. -/
def dropCandidate (stream : TokenStream) : Except Flaw TokenStream :=
  match stream.levels with
  | some candidate :: levels =>
    if candidate.required then .error .malformed else .ok { stream with levels := none :: levels }
  | _ => .ok stream

/-- Remembers that a key may begin here. -/
def noteCandidate (stream : TokenStream) : Except Flaw TokenStream :=
  if !stream.allowKey then .ok stream
  else do
    let cleared ← stream.dropCandidate
    let cursor := stream.cursor
    let candidate : Candidate := {
      tokens := stream.tokens.size
      required := !stream.inFlow && stream.indent = (cursor.column : Int)
      index := cursor.index
      line := cursor.line
      column := cursor.column }
    .ok { cleared with levels := some candidate :: cleared.levels.drop 1 }

/-- Emits a token and moves past its characters. -/
def take (token : Token) (length : Nat) (stream : TokenStream) : TokenStream :=
  { stream with cursor := stream.cursor.forward length, tokens := stream.tokens.push token }

/-- Emits a token that was read up to a cursor. -/
def goTo (token : Token) (cursor : Cursor) (stream : TokenStream) : TokenStream :=
  { stream with cursor, tokens := stream.tokens.push token }

/-- Ends all block collections, as a document or a directive does. -/
def leaveBlocks (stream : TokenStream) : Except Flaw TokenStream := do
  let left ← (stream.unwind (-1)).dropCandidate
  .ok { left with allowKey := false }

def separator (token : Token) (stream : TokenStream) : Except Flaw TokenStream := do
  .ok ((← stream.leaveBlocks).take token 3)

def directive (stream : TokenStream) : Except Flaw TokenStream := do
  let left ← stream.leaveBlocks
  let (directive, next) ← Token.readDirective left.cursor
  .ok (left.goTo (.directive directive) next)

def openFlow (token : Token) (stream : TokenStream) : Except Flaw TokenStream := do
  let noted ← stream.noteCandidate
  .ok ({ noted with levels := none :: noted.levels, allowKey := true }.take token 1)

def closeFlow (token : Token) (stream : TokenStream) : Except Flaw TokenStream := do
  if !stream.inFlow then .error .malformed
  else
    let dropped ← stream.dropCandidate
    .ok ({ dropped with levels := dropped.levels.drop 1, allowKey := false }.take token 1)

def flowEntry (stream : TokenStream) : Except Flaw TokenStream := do
  .ok ({ ← stream.dropCandidate with allowKey := true }.take .flowEntry 1)

/-- Emits an entry or a marked key; in a block it may open a collection. -/
def marked (token collection : Token) (keyFollows : Bool) (stream : TokenStream) : Except Flaw TokenStream := do
  if !stream.inFlow && !stream.allowKey then .error .malformed
  else
    let opened :=
      if stream.inFlow then stream else stream.openBlock collection stream.cursor.column stream.tokens.size
    .ok ({ ← opened.dropCandidate with allowKey := keyFollows }.take token 1)

/-- Emits a value, and before its candidate the key that the colon makes of it. -/
def value (stream : TokenStream) : Except Flaw TokenStream :=
  match stream.levels with
  | some candidate :: levels =>
    let keyed := { stream with
      levels := none :: levels
      allowKey := false
      tokens := stream.tokens.extract 0 candidate.tokens ++ #[Token.key] ++
        stream.tokens.extract candidate.tokens stream.tokens.size }
    let opened := if stream.inFlow then keyed else keyed.openBlock .blockMapping candidate.column candidate.tokens
    .ok (opened.take .value 1)
  | _ => stream.marked .value .blockMapping (!stream.inFlow)

/-- Emits a token that may be a key or begin one. -/
def named (read : Cursor → Except Flaw (Token × Cursor)) (stream : TokenStream) : Except Flaw TokenStream := do
  let noted ← stream.noteCandidate
  let (token, next) ← read noted.cursor
  .ok ({ noted with allowKey := false }.goTo token next)

def plain (stream : TokenStream) : Except Flaw TokenStream := do
  let noted ← stream.noteCandidate
  let (text, brokeLine, next) := PlainScalar.read stream.inFlow stream.indent noted.cursor
  .ok ({ noted with allowKey := brokeLine }.goTo (.scalar true text) next)

def block (folded : Bool) (stream : TokenStream) : Except Flaw TokenStream := do
  let dropped ← stream.dropCandidate
  let (text, next) ← BlockScalar.read folded stream.indent stream.cursor
  .ok ({ dropped with allowKey := true }.goTo (.scalar false text) next)

/-- Reads a name behind its mark as a token. -/
def nameToken (token : Text → Token) (cursor : Cursor) : Except Flaw (Token × Cursor) := do
  let (name, next) ← Token.readName cursor
  .ok (token name, next)

def tagToken (cursor : Cursor) : Except Flaw (Token × Cursor) := do
  let (tag, next) ← Token.readTag cursor
  .ok (.tag tag, next)

def quotedToken (double : Bool) (cursor : Cursor) : Except Flaw (Token × Cursor) := do
  let (text, next) ← Quoted.read double cursor
  .ok (.scalar false text, next)

/-- Reads the token that starts with a given character. -/
def token (c : Char) (stream : TokenStream) : Except Flaw TokenStream :=
  let cursor := stream.cursor
  let atMark := stream.inFlow || wordEnds (cursor.peekAt 1)
  if c = '%' && cursor.column = 0 then stream.directive
  else if cursor.column = 0 && cursor.atSeparator '-' then stream.separator .documentStart
  else if cursor.column = 0 && cursor.atSeparator '.' then stream.separator .documentEnd
  else if c = '[' then stream.openFlow .flowSequence
  else if c = '\x7b' then stream.openFlow .flowMapping
  else if c = ']' then stream.closeFlow .flowSequenceEnd
  else if c = '\x7d' then stream.closeFlow .flowMappingEnd
  else if c = ',' then stream.flowEntry
  else if c = '-' && wordEnds (cursor.peekAt 1) then stream.marked .blockEntry .blockSequence true
  else if c = '?' && atMark then stream.marked .key .blockMapping (!stream.inFlow)
  else if c = ':' && atMark then stream.value
  else if c = '*' then stream.named (nameToken .alias)
  else if c = '&' then stream.named (nameToken .anchor)
  else if c = '!' then stream.named tagToken
  else if c = '|' && !stream.inFlow then stream.block false
  else if c = '>' && !stream.inFlow then stream.block true
  else if c = '\'' then stream.named (quotedToken false)
  else if c = '"' then stream.named (quotedToken true)
  else if PlainScalar.starts stream.inFlow cursor then stream.plain
  else .error .malformed

/-- Reads all tokens that are left. -/
def finish (stream : TokenStream) : Except Flaw (Array Token) := do
  let settled ← stream.settle.refresh
  let ready := settled.unwind settled.cursor.column
  match ready.cursor.peek with
  | none => .ok (← (ready.unwind (-1)).dropCandidate).tokens
  | some c =>
    let next ← ready.token c
    if _shorter : next.cursor.rest.length < stream.cursor.rest.length then finish next else .error .malformed
termination_by stream.cursor.rest.length

/-- The characters that a YAML text may hold. -/
def isAllowed (c : Char) : Bool :=
  let code := c.toNat
  code == 9 || code == 10 || code == 13 || (32 ≤ code && code ≤ 126) || code == 0x85 ||
    (0xA0 ≤ code && code != 0xFFFE && code != 0xFFFF)

/-- The tokens of a text. -/
def ofText (text : Text) : Except Flaw (List Token) :=
  if text.all isAllowed then do
    .ok (← finish { cursor := { rest := text } }).toList
  else .error .malformed

end TokenStream

end Yaml

end ComponentPages
