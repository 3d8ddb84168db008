import ComponentPages.Text.Basic

/-!
Written forms of a text: as a JSON string in ASCII, inside a single-quoted script string, and as a log line
displays it.
-/
namespace ComponentPages

namespace Text

/-- The lower-case hexadecimal digits of a number, padded with zeros to a width. -/
def hex (width n : Nat) : Text :=
  let digits := Nat.toDigits 16 n
  List.replicate (width - digits.length) '0' ++ digits

/-- The UTF-16 code units of a character. -/
def units16 (c : Char) : List Nat :=
  if c.toNat < 0x10000 then [c.toNat]
  else [0xD800 + (c.toNat - 0x10000) / 0x400, 0xDC00 + (c.toNat - 0x10000) % 0x400]

/-- One character inside a JSON string that is kept in ASCII. -/
def jsonChar (c : Char) : Text :=
  if c == '"' then ['\\', '"']
  else if c == '\\' then ['\\', '\\']
  else if c == '\n' then ['\\', 'n']
  else if c == '\r' then ['\\', 'r']
  else if c == '\t' then ['\\', 't']
  else if c.toNat == 8 then ['\\', 'b']
  else if c.toNat == 12 then ['\\', 'f']
  else if 32 ≤ c.toNat && c.toNat ≤ 126 then [c]
  else (units16 c).flatMap fun unit => '\\' :: 'u' :: hex 4 unit

def json (text : Text) : Text := '"' :: text.flatMap jsonChar ++ ['"']

/-- A text inside a single-quoted script string of an HTML page. -/
def scriptQuoted (text : Text) : Text :=
  let escaped := replaceChar '\n' ['\\', 'n']
    (replaceChar '\'' ['\\', '\''] (replaceChar '\\' ['\\', '\\'] text))
  replace ['<', '/'] ['<', '\\', '/'] (replaceChar '\r' ['\\', 'r'] escaped)

/-- One character between display quotes. -/
def displayChar (quote c : Char) : Text :=
  if c == quote || c == '\\' then ['\\', c]
  else if c == '\n' then ['\\', 'n']
  else if c == '\r' then ['\\', 'r']
  else if c == '\t' then ['\\', 't']
  else if isPrintable c then [c]
  else if c.toNat < 0x100 then '\\' :: 'x' :: hex 2 c.toNat
  else if c.toNat < 0x10000 then '\\' :: 'u' :: hex 4 c.toNat
  else '\\' :: 'U' :: hex 8 c.toNat

/-- A text as a log line displays it: in single quotes, or in double quotes when it holds single quotes only. -/
def display (text : Text) : Text :=
  let quote := if text.any (· == '\'') && !text.any (· == '"') then '"' else '\''
  quote :: text.flatMap (displayChar quote) ++ [quote]

end Text

end ComponentPages
