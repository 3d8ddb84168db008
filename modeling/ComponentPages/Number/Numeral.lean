import ComponentPages.Number.Binary64
import ComponentPages.Text.Basic

/-!
Numbers read from text: decimal digits of any script, single underscores between digits, one sign and white
space around.
-/
namespace ComponentPages

namespace Numeral

/-- White space around a number. -/
def isPadding (c : Char) : Bool :=
  if c.toNat < 128 then (9 ≤ c.toNat && c.toNat ≤ 13) || c.toNat == 32 else isBlank c

/-- A digit of any script as an ASCII digit; any other character stays. -/
def plainChar (c : Char) : Char :=
  match digitValue? c with
  | some value => Char.ofNat (48 + value)
  | none => c

/-- The text without padding, with plain digits. -/
def plain (text : Text) : Text :=
  let start := text.dropWhile isPadding
  (start.reverse.dropWhile isPadding).reverse.map plainChar

/-- Removes a sign, and tells whether it was a minus. -/
def unsign : Text → Bool × Text
  | '-' :: rest => (true, rest)
  | '+' :: rest => (false, rest)
  | rest => (false, rest)

def digit? (base : Nat) (c : Char) : Option Nat :=
  let value :=
    if c.isDigit then c.toNat - 48
    else if 'a' ≤ c && c ≤ 'z' then c.toNat - 87
    else if 'A' ≤ c && c ≤ 'Z' then c.toNat - 55
    else base
  if value < base then some value else none

/-- The digits of a text in which underscores stand between digits only. -/
def digits? (base : Nat) : Text → Option (List Nat)
  | [] => none
  | [c] => (digit? base c).map ([·])
  | c :: '_' :: rest => do
    let value ← digit? base c
    pure (value :: (← digits? base rest))
  | c :: rest => do
    let value ← digit? base c
    pure (value :: (← digits? base rest))

def ofDigits (base : Nat) (digits : List Nat) : Nat := digits.foldl (fun n digit => n * base + digit) 0

/-- How many digits a number may have, in a base that is no power of two. -/
def digitLimit : Nat := 4300

/-- The letter that marks a base after a leading zero. -/
def baseLetter? : Nat → Option Char
  | 2 => some 'b'
  | 8 => some 'o'
  | 16 => some 'x'
  | _ => none

/-- Removes the mark of a base and one underscore behind it. -/
def unmark (base : Nat) (text : Text) : Text :=
  match text with
  | '0' :: mark :: rest =>
    if baseLetter? base = some mark.toLower then
      match rest with
      | '_' :: rest => rest
      | rest => rest
    else text
  | _ => text

/-- Reads a whole number in a base. -/
def whole? (base : Nat) (text : Text) : Option Int := do
  let (negative, unsigned) := unsign (plain text)
  let digits ← digits? base (unmark base unsigned)
  if baseLetter? base = none && digitLimit < digits.length then none
  else
    let size := ofDigits base digits
    some (if negative then -(size : Int) else size)

/-- Reads hexadecimal digits as a number. -/
def hex? (digits : Text) : Option Nat :=
  digits.foldlM (fun code c => (digit? 16 c).map (16 * code + ·)) 0

/-- Reads a decimal whole number. -/
def int? (text : Text) : Option Int := whole? 10 text

/-- A decimal text without the underscores that stand between digits. -/
def joined? : (previous : Char) → Text → Option Text
  | previous, [] => if previous = '_' then none else some []
  | previous, c :: rest =>
    if c = '_' then if previous.isDigit then joined? c rest else none
    else if previous = '_' && !c.isDigit then none
    else (joined? c rest).map (c :: ·)

/-- The value of an exponent, capped where it no longer matters. -/
def exponent? (text : Text) : Option Int :=
  let (negative, digits) := unsign text
  if digits.isEmpty || !digits.all Char.isDigit then none
  else
    let size := min (Text.toNat? (digits.dropWhile (· == '0')) |>.getD 0) 100000
    some (if negative then -(size : Int) else size)

/-- Digits with a point at will and an exponent at will. -/
def decimal? (negative : Bool) (text : Text) : Option Binary64 := do
  let whole := text.takeWhile Char.isDigit
  let afterWhole := text.dropWhile Char.isDigit
  let (fraction, afterFraction) :=
    match afterWhole with
    | '.' :: rest => (rest.takeWhile Char.isDigit, rest.dropWhile Char.isDigit)
    | rest => ([], rest)
  let digits ← Text.toNat? (whole ++ fraction)
  let exponent ←
    match afterFraction with
    | [] => some 0
    | mark :: rest => if mark.toLower = 'e' then exponent? rest else none
  some (Binary64.ofDecimal negative digits (exponent - fraction.length))

/-- Reads a floating-point number; infinity and not-a-number have names, in either case. -/
def float? (text : Text) : Option Binary64 := do
  let joined ← joined? ' ' (plain text)
  let (negative, unsigned) := unsign joined
  let name := String.ofList (unsigned.map Char.toLower)
  if name = "inf" || name = "infinity" then some (.infinite negative)
  else if name = "nan" then some .nan
  else decimal? negative unsigned

end Numeral

end ComponentPages
