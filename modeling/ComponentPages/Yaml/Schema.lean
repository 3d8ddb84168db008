import ComponentPages.Number.Numeral
import ComponentPages.Yaml.Cursor

/-!
The types of scalars: which plain texts stand for something else than text, and what a scalar of a type means.
Whole numbers may be binary, octal with a leading zero, hexadecimal, or have places of sixty.
-/
namespace ComponentPages

namespace Yaml

/-- The tag of a type of the YAML repository. -/
def standardTag (name : Text) : Text := "tag:yaml.org,2002:" ++ name

inductive Scalar where
  | null
  | boolean (truth : Bool)
  | int (number : Int)
  | float (number : Binary64)
  | text (text : Text)
  /-- A date or binary data, which nothing looks into. -/
  | opaqueData
deriving DecidableEq

namespace Schema

def truths : List String := ["yes", "true", "on"]

def falsehoods : List String := ["no", "false", "off"]

/-- The three spellings of a word: in small letters, capitalized, and in capitals. -/
def spellings (word : String) : List Text :=
  let small := word.toList
  [small, (small.take 1).map Char.toUpper ++ small.drop 1, small.map Char.toUpper]

def isBoolean (text : Text) : Bool := ((truths ++ falsehoods).flatMap spellings).contains text

def isNull (text : Text) : Bool := text.isEmpty || text = ['~'] || (spellings "null").contains text

def isDigitOrGap (c : Char) : Bool := c.isDigit || c == '_'

/-- Whether a text starts with a digit and goes on with digits and underscores. -/
def isDigits : Text → Bool
  | [] => false
  | c :: rest => c.isDigit && rest.all isDigitOrGap

/-- A place of sixty: one digit, or two of which the first is below six. -/
def isSixtieth : Text → Bool
  | [c] => c.isDigit
  | [c, d] => c.isDigit && c.toNat < 54 && d.isDigit
  | _ => false

def isInt (text : Text) : Bool :=
  match (Numeral.unsign text).2 with
  | '0' :: 'b' :: rest => !rest.isEmpty && rest.all fun c => c == '0' || c == '1' || c == '_'
  | '0' :: 'x' :: rest => !rest.isEmpty && rest.all fun c => (Numeral.digit? 16 c).isSome || c == '_'
  | '0' :: rest => rest.all fun c => (Numeral.digit? 8 c).isSome || c == '_'
  | digits =>
    match Text.pieces ':' digits with
    | first :: places => isDigits first && places.all isSixtieth
    | [] => false

/-- An exponent with its letter and a sign, or nothing. -/
def isExponent : Text → Bool
  | [] => true
  | [_] | [_, _] => false
  | letter :: sign :: digits => (letter == 'e' || letter == 'E') && (sign == '+' || sign == '-') && digits.all Char.isDigit

/-- Digits behind a point, perhaps with an exponent. -/
def isFraction (text : Text) : Bool := isExponent (text.dropWhile isDigitOrGap)

def isFloat (text : Text) : Bool :=
  let (_, unsigned) := Numeral.unsign text
  match text with
  | '.' :: rest =>
    (rest.head?.any Char.isDigit && isFraction rest) ||
      ["nan", "NaN", "NAN", "inf", "Inf", "INF"].any fun name => name.toList = rest
  | _ =>
    match Text.cut? '.' unsigned with
    | none => false
    | some ([], rest) => ["inf", "Inf", "INF"].any fun name => name.toList = rest
    | some (whole, rest) =>
      match Text.pieces ':' whole with
      | [digits] => isDigits digits && isFraction rest
      | digits :: places => isDigits digits && places.all isSixtieth && rest.all isDigitOrGap
      | [] => false

/-- The parts of a date: year, month and day, and the time of day with its offset in minutes from UTC. -/
structure Moment where
  year : Nat
  month : Nat
  day : Nat
  time : Option (Nat × Nat × Nat × Int) := none

/-- Reads from a least to a greatest number of digits, as many as there are. -/
def digits? (least greatest : Nat) (text : Text) : Option (Text × Text) :=
  let count := min greatest (text.takeWhile Char.isDigit).length
  if count < least then none else some (text.take count, text.drop count)

def number (digits : Text) : Nat := (Text.toNat? digits).getD 0

/-- The minutes of an offset from UTC. -/
def offset? (text : Text) : Option Int :=
  match text.dropWhile isSpaceOrTab with
  | [] => if text.isEmpty then some 0 else none
  | ['Z'] => some 0
  | sign :: rest =>
    if sign = '+' ∨ sign = '-' then do
      let (hours, afterHours) ← digits? 1 2 rest
      let minutes ←
        match afterHours with
        | [] => some 0
        | ':' :: rest => do
          let (minutes, rest) ← digits? 2 2 rest
          if rest.isEmpty then some (number minutes) else none
        | _ => none
      let size : Int := 60 * number hours + minutes
      some (if sign = '-' then -size else size)
    else none

/-- The time of day of a date, behind the letter or the white space that separates them. -/
def time? (text : Text) : Option (Nat × Nat × Nat × Int) := do
  let start ←
    match text with
    | 'T' :: rest | 't' :: rest => some rest
    | c :: rest => if isSpaceOrTab c then some (rest.dropWhile isSpaceOrTab) else none
    | [] => none
  let (hour, afterHour) ← digits? 1 2 start
  let (minute, afterMinute) ← digits? 2 2 (← Text.after? [':'] afterHour)
  let (second, afterSecond) ← digits? 2 2 (← Text.after? [':'] afterMinute)
  let rest :=
    match afterSecond with
    | '.' :: fraction => fraction.dropWhile Char.isDigit
    | rest => rest
  some (number hour, number minute, number second, ← offset? rest)

/-- Reads a date, with a time of day at will. -/
def moment? (text : Text) : Option Moment := do
  let (year, afterYear) ← digits? 4 4 text
  let (month, afterMonth) ← digits? 1 2 (← Text.after? ['-'] afterYear)
  let (day, rest) ← digits? 1 2 (← Text.after? ['-'] afterMonth)
  let date : Moment := { year := number year, month := number month, day := number day }
  if rest.isEmpty then some date else some { date with time := some (← time? rest) }

/-- Whether a text is a date; without a time of day month and day have two digits. -/
def isMoment (text : Text) : Bool :=
  match moment? text with
  | none => false
  | some moment => moment.time.isSome || text.length == 10

/-- The name of the type that a plain scalar has by its text. -/
def typeOf (text : Text) : Text :=
  if isBoolean text then "bool"
  else if isFloat text then "float"
  else if isInt text then "int"
  else if text = "<<" then "merge"
  else if isNull text then "null"
  else if isMoment text then "timestamp"
  else if text = "=" then "value"
  else "str"

/-- A number whose places are worth sixty times the place behind them. -/
def sixties (places : List Int) : Int := places.foldl (fun total place => 60 * total + place) 0

def readWhole (base : Nat) (text : Text) : Except Flaw Int :=
  match Numeral.whole? base text with
  | some number => .ok number
  | none => .error .notANumber

def withoutGaps (text : Text) : Text := text.filter (· != '_')

def readInt (text : Text) : Except Flaw Int := do
  let (negative, digits) := Numeral.unsign (withoutGaps text)
  if (withoutGaps text).isEmpty then .error .emptyNumber
  else
    let size ←
      match digits with
      | ['0'] => pure 0
      | '0' :: 'b' :: rest => readWhole 2 rest
      | '0' :: 'x' :: rest => readWhole 16 rest
      | '0' :: _ => readWhole 8 digits
      | [] => .error .emptyNumber
      | _ =>
        if digits.any (· == ':') then do
          .ok (sixties (← (Text.pieces ':' digits).mapM (readWhole 10)))
        else readWhole 10 digits
    .ok (if negative then -size else size)

def readReal (text : Text) : Except Flaw Binary64 :=
  match Numeral.float? text with
  | some number => .ok number
  | none => .error .notANumber

/-- Places of sixty with a fraction, added from the last on. -/
def realSixties (places : List Binary64) : Binary64 :=
  (places.reverse.foldl (fun (total, weight) place =>
    (Binary64.add total (Binary64.mul place (.ofInt weight)), 60 * weight)) (Binary64.ofInt 0, (1 : Int))).1

def readFloat (text : Text) : Except Flaw Binary64 := do
  let plain := Text.lower (withoutGaps text)
  let (negative, unsigned) := Numeral.unsign plain
  if plain.isEmpty then .error .emptyNumber
  else
    let size ←
      if unsigned = ".inf" then pure (.infinite false)
      else if unsigned = ".nan" then pure .nan
      else if unsigned.any (· == ':') then do
        .ok (realSixties (← (Text.pieces ':' unsigned).mapM readReal))
      else readReal unsigned
    .ok (if negative then size.neg else size)

def isLeapYear (year : Nat) : Bool := year % 4 == 0 && (year % 100 != 0 || year % 400 == 0)

def daysIn (year month : Nat) : Nat :=
  if month = 2 then (if isLeapYear year then 29 else 28)
  else if month = 4 ∨ month = 6 ∨ month = 9 ∨ month = 11 then 30
  else 31

/-- Whether a date is one of the calendar, and its offset less than a day. -/
def isValid (moment : Moment) : Bool :=
  0 < moment.year && 0 < moment.month && moment.month ≤ 12 && 0 < moment.day &&
    moment.day ≤ daysIn moment.year moment.month &&
    moment.time.all fun (hour, minute, second, offset) =>
      hour < 24 && minute < 60 && second < 60 && offset.natAbs < 1440

/-- How base 64 text stands: characters read of the group, and padding of it. Padding that completes a group ends
the text; other characters are passed over. -/
def base64Ends (group padding : Nat) : Text → Bool
  | [] => group == 0
  | c :: rest =>
    if c = '=' then
      if 2 ≤ group then 4 ≤ group + padding + 1 || base64Ends group (padding + 1) rest
      else base64Ends group padding rest
    else if c.isAlphanum || c == '+' || c == '/' then base64Ends ((group + 1) % 4) 0 rest
    else base64Ends group padding rest

/-- The meaning of a scalar of a type, for the types that scalars have. -/
def read (type text : Text) : Except Flaw Scalar :=
  if type = "null" then .ok .null
  else if type = "bool" then
    let word := String.ofList (Text.lower text)
    if truths.contains word then .ok (.boolean true)
    else if falsehoods.contains word then .ok (.boolean false)
    else .error .notATruthValue
  else if type = "int" then do .ok (.int (← readInt text))
  else if type = "float" then do .ok (.float (← readFloat text))
  else if type = "timestamp" then
    match moment? text with
    | none => .error .notADate
    | some moment => if isValid moment then .ok .opaqueData else .error .noSuchDate
  else if type = "binary" then
    if text.all (fun c => c.toNat < 128) && base64Ends 0 0 text then .ok .opaqueData else .error .malformed
  else .ok (.text text)

end Schema

end Yaml

end ComponentPages
