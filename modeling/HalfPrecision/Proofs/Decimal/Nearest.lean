import HalfPrecision.Decimal
import HalfPrecision.Proofs.Conversion.Nearest
import Mathlib.Tactic.NormNum

/-!
# Rounding of decimal numbers

A decimal number becomes the nearest double, a tie going to the even one. Where its exponent alone
tells that it overflows, or together with the size of its digits that it vanishes, the power of ten
is not computed; the limits for that leave room on either side of the range of doubles.
-/

namespace HalfPrecision.Decimal

open Layout

theorem toRat_fraction (digits : Nat) (exponent : Int) :
    (fraction digits exponent).toRat = digits * 10 ^ exponent := by
  rw [fraction, Fraction.toRat_scaleTen, Fraction.toRat_ofNat]

/-- The power of ten at the limit is beyond every power of two in the range of doubles. -/
theorem two_pow_le_ten_pow {n : Nat} (h : n ≤ 3 * exponentLimit) :
    (2 : Rat) ^ n ≤ 10 ^ exponentLimit :=
  calc (2 : Rat) ^ n ≤ 2 ^ (3 * exponentLimit) := pow_le_pow_right₀ one_le_two h
    _ = (2 ^ 3) ^ exponentLimit := pow_mul _ _ _
    _ ≤ 10 ^ exponentLimit := pow_le_pow_left₀ (by norm_num) (by norm_num) _

/-- What has a great exponent lies beyond the range of doubles. -/
theorem infinity_le_of_exponentLimit_lt {digits : Nat} {exponent : Int} (hdigits : digits ≠ 0)
    (h : exponentLimit < exponent) :
    double.magnitudeValue double.infinity ≤ digits * 10 ^ exponent := by
  have hone : (1 : Rat) ≤ digits := Nat.one_le_cast.2 (Nat.pos_of_ne_zero hdigits)
  calc double.magnitudeValue double.infinity = 2 ^ (1024 : Int) := double.magnitudeValue_infinity
    _ = 2 ^ 1024 := zpow_natCast 2 1024
    _ ≤ 10 ^ exponentLimit := two_pow_le_ten_pow (by decide)
    _ = 10 ^ (exponentLimit : Int) := (zpow_natCast 10 exponentLimit).symm
    _ ≤ 10 ^ exponent := zpow_le_zpow_right₀ (by norm_num) h.le
    _ ≤ digits * 10 ^ exponent := le_mul_of_one_le_left (by positivity) hone

/-- What has a low exponent for its digits is closer to zero than to any double. -/
theorem le_midpoint_of_lt_exponentLimit {digits : Nat} {exponent : Int}
    (h : exponent < -(exponentLimit + digits.log2 : Nat)) :
    digits * 10 ^ exponent ≤ double.midpoint 0 := by
  have hdigits : (digits : Rat) ≤ 10 ^ (digits.log2 + 1 : Int) := by
    have hlt : digits < 10 ^ (digits.log2 + 1) :=
      Nat.lt_log2_self.trans_le (Nat.pow_le_pow_left (by decide) _)
    exact_mod_cast hlt.le
  have hpower : (10 : Rat) ^ exponent ≤ 10 ^ (-exponentLimit - digits.log2 - 1 : Int) := by
    apply zpow_le_zpow_right₀ (by norm_num)
    omega
  have hone : double.magnitudeValue 1 = 2 ^ (-1074 : Int) := by
    rw [magnitudeValue, double.units_of_lt double.one_lt_hiddenBit, Nat.cast_one, one_mul]
    rfl
  calc (digits : Rat) * 10 ^ exponent
      ≤ 10 ^ (digits.log2 + 1 : Int) * 10 ^ (-exponentLimit - digits.log2 - 1 : Int) :=
        mul_le_mul hdigits hpower (by positivity) (by positivity)
    _ = 10 ^ (-exponentLimit : Int) := by
        rw [← zpow_add₀ (by norm_num)]
        congr 1
        omega
    _ = (10 ^ exponentLimit)⁻¹ := by rw [zpow_neg, zpow_natCast]
    _ ≤ (2 ^ 1075)⁻¹ := inv_anti₀ (by positivity) (two_pow_le_ten_pow (by decide))
    _ = 2 ^ (-1074 - 1 : Int) := (zpow_negSucc 2 1074).symm
    _ = double.midpoint 0 := by
        rw [Layout.midpoint, Nat.zero_add, hone, magnitudeValue_zero, zero_add, div_eq_mul_inv,
          zpow_sub_one₀ two_ne_zero]

/-- The double of a decimal number is the nearest one. -/
theorem isNearestEven_nearestDouble (digits : Nat) (exponent : Int) :
    double.IsNearestEven (digits * 10 ^ exponent) (nearestDouble digits exponent) := by
  unfold nearestDouble
  split
  next hzero =>
    rw [hzero, Nat.cast_zero, zero_mul, ← double.magnitudeValue_zero]
    exact isNearestEven_magnitudeValue (Nat.zero_le _)
  next hdigits =>
    split
    next hhigh => exact isNearestEven_infinity (infinity_le_of_exponentLimit_lt hdigits hhigh)
    next =>
      split
      next hlow => exact isNearestEven_zero (le_midpoint_of_lt_exponentLimit hlow)
      next =>
        rw [← toRat_fraction]
        exact double.isNearestEven_nearest _

end HalfPrecision.Decimal
