/-!
Binary floating-point numbers of 64 bits. A finite number is a significand of at most 53 bits times a power of
two; results are rounded to the nearest such number, and a tie goes to the even significand.
-/
namespace ComponentPages

inductive Binary64 where
  | finite (negative : Bool) (significand : Nat) (exponent : Int)
  | infinite (negative : Bool)
  | nan
deriving DecidableEq

namespace Binary64

/-- A base to the power of an exponent; one where the exponent is negative. -/
def power (base : Nat) (exponent : Int) : Nat := Nat.pow base exponent.toNat

/-- A quotient rounded to the nearest natural number, a tie to the even one. -/
def roundRatio (num den : Nat) : Nat :=
  let quotient := num / den
  let twice := 2 * (num % den)
  if twice < den then quotient
  else if den < twice then quotient + 1
  else quotient + quotient % 2

/-- Rounds the quotient of two positive numbers, divided by a power of two. -/
def roundScaled (num den : Nat) (exponent : Int) : Nat :=
  if 0 ≤ exponent then roundRatio num (den * power 2 exponent)
  else roundRatio (num * power 2 (-exponent)) den

/-- Whether the quotient of two positive numbers is at least two to the power of the exponent. -/
def atLeastPower (num den : Nat) (exponent : Int) : Bool :=
  if 0 ≤ exponent then den * power 2 exponent ≤ num else den ≤ num * power 2 (-exponent)

/-- The floating-point number nearest to a quotient. -/
def ofRatio (negative : Bool) (num den : Nat) : Binary64 :=
  if num = 0 then .finite negative 0 0
  else
    let estimate : Int := (Nat.log2 num : Int) - Nat.log2 den
    let order := if atLeastPower num den estimate then estimate else estimate - 1
    let exponent := max (order - 52) (-1074)
    let significand := roundScaled num den exponent
    let (significand, exponent) :=
      if significand = power 2 53 then (power 2 52, exponent + 1) else (significand, exponent)
    if 971 < exponent then .infinite negative else .finite negative significand exponent

def ofInt (n : Int) : Binary64 := ofRatio (n < 0) n.natAbs 1

/-- A decimal significand times a power of ten. Powers far out of range need not be computed. -/
def ofDecimal (negative : Bool) (digits : Nat) (exponent : Int) : Binary64 :=
  let order : Int := exponent + (Nat.log2 digits) / 3
  if digits = 0 then .finite negative 0 0
  else if 400 < exponent then .infinite negative
  else if order < -400 then .finite negative 0 0
  else if 0 ≤ exponent then ofRatio negative (digits * power 10 exponent) 1
  else ofRatio negative digits (power 10 (-exponent))

def neg : Binary64 → Binary64
  | .finite negative significand exponent => .finite (!negative) significand exponent
  | .infinite negative => .infinite (!negative)
  | .nan => .nan

/-- Whether the number is zero or below; nothing holds of a number that is none. -/
def isNonpositive : Binary64 → Bool
  | .finite negative significand _ => negative || significand == 0
  | .infinite negative => negative
  | .nan => false

/-- The whole part of a multiple of a number; zero for negative numbers and for what is no finite number. -/
def multiple (number : Binary64) (factor : Nat) : Nat :=
  match number with
  | .finite false significand exponent => significand * factor * power 2 exponent / power 2 (-exponent)
  | _ => 0

/-- A finite number as an integer over a power of two. -/
def signed (negative : Bool) (significand : Nat) (exponent shift : Int) : Int :=
  let size : Nat := significand * power 2 (exponent - shift)
  if negative then -size else size

def add : Binary64 → Binary64 → Binary64
  | .nan, _ | _, .nan => .nan
  | .infinite left, .infinite right => if left == right then .infinite left else .nan
  | .infinite negative, _ | _, .infinite negative => .infinite negative
  | .finite leftSign left leftExponent, .finite rightSign right rightExponent =>
    let shift := min leftExponent rightExponent
    let total := signed leftSign left leftExponent shift + signed rightSign right rightExponent shift
    if total = 0 then .finite (leftSign && rightSign) 0 0
    else if 0 ≤ shift then ofRatio (total < 0) (total.natAbs * power 2 shift) 1
    else ofRatio (total < 0) total.natAbs (power 2 (-shift))

def mul : Binary64 → Binary64 → Binary64
  | .nan, _ | _, .nan => .nan
  | .infinite left, .infinite right => .infinite (left != right)
  | .infinite left, .finite right significand _ | .finite right significand _, .infinite left =>
    if significand = 0 then .nan else .infinite (left != right)
  | .finite leftSign left leftExponent, .finite rightSign right rightExponent =>
    let exponent := leftExponent + rightExponent
    if 0 ≤ exponent then ofRatio (leftSign != rightSign) (left * right * power 2 exponent) 1
    else ofRatio (leftSign != rightSign) (left * right) (power 2 (-exponent))

end Binary64

end ComponentPages
