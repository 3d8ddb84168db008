import ComponentPages.Number.Binary64
import Mathlib.Algebra.Order.Field.Rat
import Mathlib.Data.Nat.Log
import Mathlib.Tactic.Linarith
import Mathlib.Tactic.Ring
import Mathlib.Tactic.FieldSimp

/-!
Integers as floating-point numbers. Below a power of two that a significand has room for, an integer is kept as it is;
above it the low digits are rounded off. So the number of an integer is the integer itself exactly where the integer is
a significand of 53 bits times a power of two in range.
-/
namespace ComponentPages

namespace Binary64

def sign (negative : Bool) : ℚ := if negative then -1 else 1

/-- The value of a finite number. -/
def value? : Binary64 → Option ℚ
  | .finite negative significand exponent => some (sign negative * (significand * 2 ^ exponent))
  | .infinite _ => none
  | .nan => none

/-- Whether an integer is a floating-point number. -/
def IsWhole (n : Int) : Prop := ∃ significand exponent : Nat,
  significand < 2 ^ 53 ∧ exponent ≤ 971 ∧ n.natAbs = significand * 2 ^ exponent

/-- The last integer before gaps. -/
theorem isWhole_of_le {n : Int} (small : n.natAbs ≤ 2 ^ 53) : IsWhole n := by
  rcases Nat.lt_or_eq_of_le small with below | last
  · exact ⟨n.natAbs, 0, below, Nat.zero_le _, (Nat.mul_one _).symm⟩
  · exact ⟨2 ^ 52, 1, by decide, by decide, last⟩

theorem roundRatio_of_dvd {num den : Nat} (positive : 0 < den) (divides : den ∣ num) :
    roundRatio num den = num / den := by
  rw [roundRatio, Nat.mod_eq_zero_of_dvd divides]
  exact if_pos positive

theorem roundScaled_spare (n spare : Nat) : roundScaled n 1 (-spare) = n * 2 ^ spare := by
  cases spare with
  | zero =>
    change roundRatio n (1 * 1) = n * 1
    rw [roundRatio_of_dvd (by decide) (Nat.one_dvd n), Nat.div_one, Nat.mul_one]
  | succ spare =>
    rw [roundScaled, if_neg (by omega), Int.neg_neg, roundRatio_of_dvd (by decide) (Nat.one_dvd _), Nat.div_one]
    rfl

theorem roundScaled_gap (n gap : Nat) : roundScaled n 1 gap = roundRatio n (2 ^ gap) := by
  rw [roundScaled, if_pos (Int.natCast_nonneg gap), Nat.one_mul]
  rfl

/-- A finite number, if the exponent is in range. -/
def limited (negative : Bool) (significand : Nat) (exponent : Int) : Binary64 :=
  if 971 < exponent then .infinite negative else .finite negative significand exponent

/-- A whole number is rounded to 53 binary digits; where the first one is carried over, the exponent is one more. -/
theorem ofRatio_one (negative : Bool) {n significand : Nat} {exponent : Int} (positive : n ≠ 0)
    (order : (Nat.log2 n : Int) - 52 = exponent) (scaled : roundScaled n 1 exponent = significand) :
    ofRatio negative n 1 =
      if significand = 2 ^ 53 then limited negative (2 ^ 52) (exponent + 1) else limited negative significand exponent := by
  have estimate : (Nat.log2 n : Int) - Nat.log2 1 = Nat.log2 n := Int.sub_zero _
  have first : atLeastPower n 1 (Nat.log2 n) = true := by
    rw [atLeastPower, if_pos (Int.natCast_nonneg _), Nat.one_mul]
    exact decide_eq_true (Nat.log2_self_le positive)
  have inRange : max ((Nat.log2 n : Int) - 52) (-1074) = (Nat.log2 n : Int) - 52 := by omega
  rw [ofRatio, if_neg positive]
  simp only [estimate, first, if_true, inRange]
  rw [order, scaled]
  by_cases carried : significand = 2 ^ 53
  · rw [if_pos (show significand = power 2 53 from carried), if_pos carried]
    rfl
  · rw [if_neg (show ¬significand = power 2 53 from carried), if_neg carried]
    rfl

section Whole

variable {n : Nat} (negative : Bool)

theorem lt_of_whole {significand exponent order : Nat} (room : significand < 2 ^ 53) (reaches : 2 ^ order ≤ n)
    (whole : n = significand * 2 ^ exponent) : order < 53 + exponent := by
  refine (Nat.pow_lt_pow_iff_right (by decide : 1 < 2)).1 ?_
  calc
    2 ^ order ≤ significand * 2 ^ exponent := whole ▸ reaches
    _ < 2 ^ 53 * 2 ^ exponent := Nat.mul_lt_mul_of_pos_right room (Nat.two_pow_pos exponent)
    _ = 2 ^ (53 + exponent) := (Nat.pow_add ..).symm

/-- With digits to spare a whole number is kept. -/
theorem value?_of_spare (positive : n ≠ 0) {spare : Nat} (order : Nat.log2 n + spare = 52) :
    value? (ofRatio negative n 1) = some (sign negative * n) := by
  have exponent : (Nat.log2 n : Int) - 52 = -spare := by omega
  have room : n * 2 ^ spare < 2 ^ 53 := by
    calc
      n * 2 ^ spare < 2 ^ (Nat.log2 n + 1) * 2 ^ spare :=
        Nat.mul_lt_mul_of_pos_right Nat.lt_log2_self (Nat.two_pow_pos spare)
      _ = 2 ^ 53 := by rw [← Nat.pow_add]; congr 1; omega
  have kept : ((n * 2 ^ spare : Nat) : ℚ) * 2 ^ (-spare : Int) = n := by
    rw [zpow_neg, zpow_natCast]
    push_cast
    field_simp
  rw [ofRatio_one negative positive exponent (roundScaled_spare n spare), if_neg (Nat.ne_of_lt room), limited,
    if_neg (by omega), value?, kept]

/-- With digits to leave out a whole number is kept if they are zeros and the number is in range. -/
theorem value?_of_gap {gap : Nat} (order : Nat.log2 n = 52 + gap) (divides : 2 ^ gap ∣ n) (range : gap ≤ 971) :
    value? (ofRatio negative n 1) = some (sign negative * n) := by
  have positive : n ≠ 0 := by
    rintro rfl
    exact absurd order (by simp; omega)
  obtain ⟨significand, rfl⟩ := divides
  have exponent : (Nat.log2 (2 ^ gap * significand) : Int) - 52 = gap := by omega
  have room : significand < 2 ^ 53 := by
    have whole := Nat.lt_log2_self (n := 2 ^ gap * significand)
    rw [order, show 52 + gap + 1 = gap + 53 by omega, Nat.pow_add] at whole
    exact Nat.lt_of_mul_lt_mul_left whole
  have scaled : roundScaled (2 ^ gap * significand) 1 gap = significand := by
    rw [roundScaled_gap, roundRatio_of_dvd (Nat.two_pow_pos gap) (Nat.dvd_mul_right _ _),
      Nat.mul_div_cancel_left _ (Nat.two_pow_pos gap)]
  rw [ofRatio_one negative positive exponent scaled, if_neg (Nat.ne_of_lt room), limited, if_neg (by omega), value?,
    zpow_natCast]
  push_cast
  rw [mul_comm (significand : ℚ)]

theorem value?_limited {significand exponent m : Nat}
    (valued : value? (limited negative significand exponent) = some (sign negative * m)) :
    m = significand * 2 ^ exponent ∧ exponent ≤ 971 := by
  have nonzero : sign negative ≠ 0 := by cases negative <;> norm_num [sign]
  unfold limited at valued
  split at valued
  · cases valued
  · next range =>
    have same := mul_left_cancel₀ nonzero (Option.some.inj valued)
    rw [zpow_natCast] at same
    exact ⟨by exact_mod_cast same.symm, by omega⟩

/-- What a number with digits left out comes to is a multiple of the power of two that they stand below. -/
theorem dvd_of_value? (positive : n ≠ 0) {gap m : Nat} (order : Nat.log2 n = 52 + gap)
    (valued : value? (ofRatio negative n 1) = some (sign negative * m)) : 2 ^ gap ∣ m ∧ gap ≤ 971 := by
  rw [ofRatio_one negative positive (show (Nat.log2 n : Int) - 52 = gap by omega) rfl] at valued
  split at valued
  · obtain ⟨rfl, range⟩ := @value?_limited negative _ (gap + 1) m valued
    exact ⟨(Nat.pow_dvd_pow 2 (Nat.le_succ gap)).mul_left _, by omega⟩
  · obtain ⟨rfl, range⟩ := value?_limited negative valued
    exact ⟨Nat.dvd_mul_left _ _, range⟩

/-- The number of an integer has the value of the integer exactly where the integer is a floating-point number. -/
theorem value?_ofRatio_one_iff (positive : n ≠ 0) :
    value? (ofRatio negative n 1) = some (sign negative * n) ↔ IsWhole n := by
  rcases Nat.lt_or_ge 52 (Nat.log2 n) with large | small
  · obtain ⟨gap, order⟩ := Nat.exists_eq_add_of_le large.le
    constructor
    · intro valued
      obtain ⟨⟨significand, whole⟩, range⟩ := dvd_of_value? negative positive order valued
      refine ⟨significand, gap, ?_, range, by rw [Int.natAbs_natCast, whole, Nat.mul_comm]⟩
      have below := Nat.lt_log2_self (n := n)
      rw [order, show 52 + gap + 1 = gap + 53 by omega, Nat.pow_add] at below
      exact Nat.lt_of_mul_lt_mul_left (whole ▸ below)
    · rintro ⟨significand, exponent, room, range, whole⟩
      rw [Int.natAbs_natCast] at whole
      have order_lt := lt_of_whole room (Nat.log2_self_le positive) whole
      refine value?_of_gap negative order ?_ (by omega)
      rw [whole]
      exact (Nat.pow_dvd_pow 2 (by omega)).mul_left _
  · obtain ⟨spare, order⟩ := Nat.exists_eq_add_of_le small
    refine iff_of_true (value?_of_spare negative positive order.symm) (isWhole_of_le ?_)
    rw [Int.natAbs_natCast]
    exact (Nat.lt_log2_self.trans_le (Nat.pow_le_pow_right (by decide) (by omega : Nat.log2 n + 1 ≤ 53))).le

end Whole

theorem neg_ofRatio (negative : Bool) (num den : Nat) : neg (ofRatio negative num den) = ofRatio (!negative) num den := by
  unfold ofRatio
  split
  · rfl
  · exact apply_ite neg ..

theorem value?_ofInt_iff (n : Int) : value? (ofInt n) = some (n : ℚ) ↔ IsWhole n := by
  rcases eq_or_ne n 0 with rfl | nonzero
  · exact iff_of_true (by norm_num [ofInt, ofRatio, value?]) (isWhole_of_le (Nat.zero_le _))
  · have positive : n.natAbs ≠ 0 := Int.natAbs_ne_zero.2 nonzero
    have signed : (n : ℚ) = sign (n < 0) * n.natAbs := by
      rcases lt_or_ge n 0 with below | above
      · rw [sign, if_pos (by simpa using below), Nat.cast_natAbs, abs_of_neg below]
        push_cast
        ring
      · rw [sign, if_neg (by simpa using above), Nat.cast_natAbs, abs_of_nonneg above, one_mul]
    rw [ofInt, signed, value?_ofRatio_one_iff _ positive, IsWhole, IsWhole, Int.natAbs_natCast]

end Binary64

end ComponentPages
