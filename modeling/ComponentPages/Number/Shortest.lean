import ComponentPages.Number.Binary64
import ComponentPages.Text.Basic

/-!
The shortest decimal text of a floating-point number: the fewest digits that read back as the same number, and
of those the nearest. Texts are positional while the decimal exponent lies from -4 to 15.
-/
namespace ComponentPages

namespace Binary64

/-- Decimal digits and the power of ten of the first of them. -/
structure Digits where
  digits : Nat
  exponent : Int

/-- A number and the ends of the interval of numbers that round to it, as multiples of one power of two. -/
structure Interval where
  low : Nat
  middle : Nat
  high : Nat
  exponent : Int
  closed : Bool

/-- The numbers that round to a positive number. Below a power of two the neighbours are nearer by half. -/
def interval (significand : Nat) (exponent : Int) : Interval where
  low := if significand = power 2 52 ∧ -1074 < exponent then 4 * significand - 1 else 4 * significand - 2
  middle := 4 * significand
  high := 4 * significand + 2
  exponent := exponent - 2
  closed := significand % 2 == 0

/-- Compares a multiple of a power of two with a multiple of a power of ten. -/
def compareScaled (binary : Nat) (two : Int) (decimal : Nat) (ten : Int) : Ordering :=
  compare (binary * power 2 two * power 10 (-ten)) (decimal * power 10 ten * power 2 (-two))

namespace Interval

/-- Whether a multiple of a power of ten lies in the interval. -/
def holds (interval : Interval) (decimal : Nat) (ten : Int) : Bool :=
  let low := compareScaled interval.low interval.exponent decimal ten
  let high := compareScaled interval.high interval.exponent decimal ten
  if interval.closed then low != .gt && high != .lt else low == .lt && high == .gt

/-- The number in units of a power of ten, rounded down. -/
def inUnits (interval : Interval) (ten : Int) : Nat :=
  interval.middle * power 2 interval.exponent * power 10 (-ten) /
    (power 10 ten * power 2 (-interval.exponent))

/-- The power of ten of the first digit, found from an estimate that is at most one too high. -/
def order (interval : Interval) : Int :=
  let estimate : Int := ((Nat.log2 interval.middle : Int) + interval.exponent) * 30103 / 100000 + 1
  if interval.inUnits estimate = 0 then
    if interval.inUnits (estimate - 1) = 0 then estimate - 2 else estimate - 1
  else estimate

/-- The multiple of a power of ten nearest to the number, of its two neighbours that lie in the interval. -/
def nearest? (interval : Interval) (ten : Int) : Option Nat :=
  let below := interval.inUnits ten
  match interval.holds below ten && below != 0, interval.holds (below + 1) ten with
  | true, true =>
    match compareScaled (2 * interval.middle) interval.exponent (2 * below + 1) ten with
    | .lt => some below
    | .gt => some (below + 1)
    | .eq => some (below + below % 2)
  | true, false => some below
  | false, true => some (below + 1)
  | false, false => none

/-- The shortest digits, tried from one digit on. -/
def shortestFrom (interval : Interval) (order : Int) (count : Nat) : Nat → Digits
  | 0 => ⟨interval.inUnits (order - 16), order⟩
  | more + 1 =>
    match interval.nearest? (order - count) with
    | some digits => ⟨digits, order - count⟩
    | none => shortestFrom interval order (count + 1) more

/-- The shortest digits; the exponent is that of the last of them. -/
def shortest (interval : Interval) : Digits := shortestFrom interval interval.order 0 17

end Interval

/-- Digits without zeros at their end. -/
def trimZeros (digits : Text) : Text := (digits.reverse.dropWhile (· == '0')).reverse

/-- Digits whose first has a given power of ten: positional near one, else with an exponent of two digits or
more. -/
def place (digits : Text) (exponent : Int) : Text :=
  if exponent < -4 || 16 ≤ exponent then
    let fraction : Text := if digits.length ≤ 1 then [] else '.' :: digits.drop 1
    let size := Text.ofNat exponent.natAbs
    let padded := if size.length < 2 then '0' :: size else size
    digits.take 1 ++ fraction ++ 'e' :: (if exponent < 0 then '-' else '+') :: padded
  else if exponent < 0 then
    ['0', '.'] ++ List.replicate (exponent.natAbs - 1) '0' ++ digits
  else
    let whole := exponent.toNat + 1
    let padded := digits ++ List.replicate (whole - digits.length) '0'
    let fraction := padded.drop whole
    padded.take whole ++ '.' :: (if fraction.isEmpty then ['0'] else fraction)

def render : Binary64 → Text
  | .nan => "nan"
  | .infinite negative => (if negative then ['-'] else []) ++ "inf".toList
  | .finite negative significand exponent =>
    let sign : Text := if negative then ['-'] else []
    if significand = 0 then sign ++ "0.0".toList
    else
      let found := (interval significand exponent).shortest
      let digits := Text.ofNat found.digits
      sign ++ place (trimZeros digits) (found.exponent + digits.length - 1)

end Binary64

end ComponentPages
