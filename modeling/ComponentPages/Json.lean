import ComponentPages.Bindings
import ComponentPages.Number.Numeral
import ComponentPages.Number.Shortest
import ComponentPages.Text.Quoted

/-!
JSON values, their reading from text and their compact written form. Besides the numbers of the format, the names of
infinity and not-a-number are read. A reader gives what it read and the text behind it.
-/
namespace ComponentPages

inductive Json where
  | null
  | boolean (truth : Bool)
  | int (number : Int)
  | float (number : Binary64)
  | string (text : Text)
  | list (items : List Json)
  | object (members : List (Text × Json))

namespace Json

/-- Why a text cannot be read. -/
inductive Flaw where
  | malformed
  /-- A whole number has more digits than numerals may have. -/
  | numberTooLong
deriving DecidableEq

def isSpace (c : Char) : Bool := c == ' ' || c == '\t' || c == '\n' || c == '\r'

def skipSpace (text : Text) : Text := text.dropWhile isSpace

/-- The code unit of an escape, given its four digits and what follows. -/
def unit? : Text → Option (Nat × Text)
  | a :: b :: c :: d :: rest => (Numeral.hex? [a, b, c, d]).map fun unit => (unit, rest)
  | _ => none

/-- The character of an escape by code units; a surrogate half alone is none. -/
def escapedChar? (text : Text) : Option (Char × Text) := do
  let (unit, rest) ← unit? text
  if unit < 0xD800 || 0xE000 ≤ unit then some (Char.ofNat unit, rest)
  else
    match rest with
    | '\\' :: 'u' :: rest =>
      let (low, rest) ← unit? rest
      if unit < 0xDC00 && 0xDC00 ≤ low && low < 0xE000 then
        some (Char.ofNat (0x10000 + (unit - 0xD800) * 0x400 + (low - 0xDC00)), rest)
      else none
    | _ => none

/-- Escapes of one character. -/
def shortEscapes : List (Char × Char) := [
  ('"', '"'), ('\\', '\\'), ('/', '/'), ('b', '\x08'), ('f', '\x0c'), ('n', '\n'), ('r', '\r'), ('t', '\t')]

/-- Reads a string behind its opening quote. -/
def readText : (fuel : Nat) → Text → Except Flaw (Text × Text)
  | 0, _ => .error .malformed
  | fuel + 1, text =>
    match text with
    | [] => .error .malformed
    | '"' :: rest => .ok ([], rest)
    | '\\' :: 'u' :: rest =>
      match escapedChar? rest with
      | none => .error .malformed
      | some (c, rest) => do
        let (more, rest) ← readText fuel rest
        .ok (c :: more, rest)
    | '\\' :: letter :: rest =>
      match shortEscapes.lookup letter with
      | none => .error .malformed
      | some c => do
        let (more, rest) ← readText fuel rest
        .ok (c :: more, rest)
    | c :: rest =>
      if c == '\\' || c.toNat < 32 then .error .malformed
      else do
        let (more, rest) ← readText fuel rest
        .ok (c :: more, rest)

def readWhole (text : Text) : Option (Text × Text) :=
  match text with
  | '0' :: rest => some (['0'], rest)
  | c :: _ => if c.isDigit then some (text.takeWhile Char.isDigit, text.dropWhile Char.isDigit) else none
  | [] => none

/-- A point with digits behind it. -/
def readFraction (text : Text) : Text × Text :=
  match text with
  | '.' :: rest =>
    let digits := rest.takeWhile Char.isDigit
    if digits.isEmpty then ([], text) else ('.' :: digits, rest.dropWhile Char.isDigit)
  | _ => ([], text)

/-- An exponent mark with digits behind it. -/
def readExponent (text : Text) : Text × Text :=
  match text with
  | mark :: rest =>
    let (sign, rest) : Text × Text :=
      match rest with
      | '+' :: rest => (['+'], rest)
      | '-' :: rest => (['-'], rest)
      | rest => ([], rest)
    let digits := rest.takeWhile Char.isDigit
    if (mark == 'e' || mark == 'E') && !digits.isEmpty then (mark :: sign ++ digits, rest.dropWhile Char.isDigit)
    else ([], text)
  | [] => ([], text)

/-- Reads a number. It is whole unless it has a fraction or an exponent. -/
def readNumber (text : Text) : Except Flaw (Json × Text) :=
  let (sign, unsigned) : Text × Text :=
    match text with
    | '-' :: rest => (['-'], rest)
    | _ => ([], text)
  match readWhole unsigned with
  | none => .error .malformed
  | some (whole, rest) =>
    let (fraction, rest) := readFraction rest
    let (exponent, rest) := readExponent rest
    if fraction.isEmpty && exponent.isEmpty then
      match Numeral.int? (sign ++ whole) with
      | some number => .ok (.int number, rest)
      | none => .error .numberTooLong
    else
      match Numeral.float? (sign ++ whole ++ fraction ++ exponent) with
      | some number => .ok (.float number, rest)
      | none => .error .malformed

/-- Values that are written by a name. -/
def named : List (String × Json) := [
  ("null", .null), ("true", .boolean true), ("false", .boolean false), ("NaN", .float .nan),
  ("Infinity", .float (.infinite false)), ("-Infinity", .float (.infinite true))]

def readName? (text : Text) : Option (Json × Text) :=
  named.findSome? fun (name, value) => (Text.after? name.toList text).map fun rest => (value, rest)

mutual

/-- Reads a value at the start of a text. -/
def readValue : (fuel : Nat) → Text → Except Flaw (Json × Text)
  | 0, _ => .error .malformed
  | fuel + 1, text =>
    match text with
    | '"' :: rest => do
      let (text, rest) ← readText (rest.length + 1) rest
      .ok (.string text, rest)
    | '[' :: rest =>
      match skipSpace rest with
      | ']' :: rest => .ok (.list [], rest)
      | rest => do
        let (items, rest) ← readItems fuel rest
        .ok (.list items, rest)
    | '\x7b' :: rest =>
      match skipSpace rest with
      | '\x7d' :: rest => .ok (.object [], rest)
      | rest => do
        let (members, rest) ← readMembers fuel rest
        .ok (.object members, rest)
    | _ =>
      match readName? text with
      | some found => .ok found
      | none => readNumber text

/-- Reads the items of a list up to its end. -/
def readItems : (fuel : Nat) → Text → Except Flaw (List Json × Text)
  | 0, _ => .error .malformed
  | fuel + 1, text => do
    let (item, rest) ← readValue fuel text
    match skipSpace rest with
    | ']' :: rest => .ok ([item], rest)
    | ',' :: rest =>
      let (items, rest) ← readItems fuel (skipSpace rest)
      .ok (item :: items, rest)
    | _ => .error .malformed

/-- Reads the members of an object up to its end. -/
def readMembers : (fuel : Nat) → Text → Except Flaw (List (Text × Json) × Text)
  | 0, _ => .error .malformed
  | fuel + 1, text =>
    match text with
    | '"' :: rest => do
      let (name, rest) ← readText (rest.length + 1) rest
      match skipSpace rest with
      | ':' :: rest =>
        let (value, rest) ← readValue fuel (skipSpace rest)
        match skipSpace rest with
        | '\x7d' :: rest => .ok ([(name, value)], rest)
        | ',' :: rest =>
          let (members, rest) ← readMembers fuel (skipSpace rest)
          .ok ((name, value) :: members, rest)
        | _ => .error .malformed
      | _ => .error .malformed
    | _ => .error .malformed

end

/-- Reads a text that holds one value and white space around it. A byte order mark may precede it. -/
def read (text : Text) : Except Flaw Json := do
  let marked : Text :=
    match text with
    | '\ufeff' :: rest => rest
    | _ => text
  let (value, rest) ← readValue (text.length + 1) (skipSpace marked)
  if (skipSpace rest).isEmpty then .ok value else .error .malformed

/-- A member of an object; of members with one name, the last. -/
def member? (name : Text) : Json → Option Json
  | .object members => members.reverse.lookup name
  | _ => none

def text? : Json → Option Text
  | .string text => some text
  | _ => none

/-- The members of an object of texts, in the order of their names. -/
def texts? : Json → Option (Bindings Text)
  | .object members => (Bindings.ofList members).mapM fun (name, value) => value.text?.map fun text => (name, text)
  | _ => none

mutual

/-- The compact written form. -/
def render : Json → Text
  | .null => "null"
  | .boolean true => "true"
  | .boolean false => "false"
  | .int number => Text.ofInt number
  | .float number => number.render
  | .string text => Text.json text
  | .list items => '[' :: renderItems items ++ [']']
  | .object members => '\x7b' :: renderMembers members ++ ['\x7d']

def renderItems : List Json → Text
  | [] => []
  | [item] => item.render
  | item :: items => item.render ++ ',' :: renderItems items

def renderMembers : List (Text × Json) → Text
  | [] => []
  | [(name, value)] => Text.json name ++ ':' :: value.render
  | (name, value) :: members => Text.json name ++ ':' :: value.render ++ ',' :: renderMembers members

end

end Json

end ComponentPages
