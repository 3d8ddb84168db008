import ComponentPages.Number.Numeral
import ComponentPages.Yaml.Cursor

/-!
Quoted scalars. Line breaks inside them are folded: one break is a space, more are one less. Double quotes know
escapes; inside single quotes a quote is written twice.
-/
namespace ComponentPages

namespace Yaml

namespace Quoted

/-- Escapes of one character. -/
def shortEscapes : List (Char × Char) := [
  ('0', '\x00'), ('a', '\x07'), ('b', '\x08'), ('t', '\t'), ('\t', '\t'), ('n', '\n'), ('v', '\x0b'),
  ('f', '\x0c'), ('r', '\r'), ('e', '\x1b'), (' ', ' '), ('"', '"'), ('\\', '\\'), ('/', '/'), ('N', '\u0085'),
  ('_', '\u00a0'), ('L', '\u2028'), ('P', '\u2029')]

/-- How many hexadecimal digits follow an escape. -/
def codeLength? : Char → Option Nat
  | 'x' => some 2
  | 'u' => some 4
  | 'U' => some 8
  | _ => none

/-- Line breaks and the white space around them; a document may not end here. -/
def breaks (cursor : Cursor) : Except Flaw (Text × Cursor) :=
  if cursor.atDocumentEdge then .error .malformed
  else
    let spaced := cursor.skip isSpaceOrTab
    match _found : spaced.lineBreak? with
    | none => .ok ([], spaced)
    | some (c, next) =>
      if _shorter : next.rest.length < cursor.rest.length then do
        let (more, last) ← breaks next
        .ok (c :: more, last)
      else .ok ([c], next)
termination_by cursor.rest.length

/-- White space inside a quoted scalar, folded where lines break. -/
def gap (cursor : Cursor) : Except Flaw (Text × Cursor) :=
  let (spaces, after) := cursor.run isSpaceOrTab
  match after.peek with
  | none => .error .malformed
  | some _ =>
    match after.lineBreak? with
    | none => .ok (spaces, after)
    | some (c, next) => do
      let (more, last) ← breaks next
      let folded : Text := if c ≠ '\n' then [c] else if more.isEmpty then [' '] else []
      .ok (folded ++ more, last)

/-- An escape, given the cursor behind its backslash. -/
def escape (cursor : Cursor) : Except Flaw (Text × Cursor) :=
  match cursor.peek with
  | none => .error .malformed
  | some c =>
    match shortEscapes.lookup c, codeLength? c with
    | some meant, _ => .ok ([meant], cursor.advance)
    | none, some length =>
      let digits := cursor.advance.rest.take length
      match if digits.length = length then Numeral.hex? digits else none with
      | none => .error .malformed
      | some code =>
        if 0x10FFFF < code then .error (.unknownCode code)
        else .ok ([if 0xD800 ≤ code ∧ code < 0xE000 then '\ufffd' else Char.ofNat code], cursor.forward (length + 1))
    | none, none =>
      match cursor.lineBreak? with
      | some (_, next) => breaks next
      | none => .error .malformed

/-- The characters up to white space or the closing quote. -/
def word (double : Bool) (cursor : Cursor) : Except Flaw (Text × Cursor) :=
  let continue_ (text : Text) (next : Cursor) : Except Flaw (Text × Cursor) :=
    if _shorter : next.rest.length < cursor.rest.length then do
      let (more, last) ← word double next
      .ok (text ++ more, last)
    else .error .malformed
  match cursor.peek with
  | none => .ok ([], cursor)
  | some c =>
    if isSpaceOrTab c || isBreak c then .ok ([], cursor)
    else if c = '\'' && !double then
      if cursor.peekAt 1 = some '\'' then continue_ ['\''] (cursor.forward 2) else .ok ([], cursor)
    else if c = '"' && double then .ok ([], cursor)
    else if c = '\\' && double then do
      let (text, next) ← escape cursor.advance
      continue_ text next
    else continue_ [c] cursor.advance
termination_by cursor.rest.length

/-- Words and gaps up to the closing quote. -/
def body (double : Bool) (cursor : Cursor) : Except Flaw (Text × Cursor) := do
  let (text, next) ← word double cursor
  if next.peek = some (if double then '"' else '\'') then .ok (text, next.advance)
  else
    let (spaces, last) ← gap next
    if _shorter : last.rest.length < cursor.rest.length then
      let (more, final) ← body double last
      .ok (text ++ spaces ++ more, final)
    else .error .malformed
termination_by cursor.rest.length

/-- Reads a quoted scalar, given the cursor at its quote. -/
def read (double : Bool) (cursor : Cursor) : Except Flaw (Text × Cursor) := body double cursor.advance

end Quoted

end Yaml

end ComponentPages
