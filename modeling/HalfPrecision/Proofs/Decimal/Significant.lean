import HalfPrecision.Decimal
import HalfPrecision.Proofs.Fraction
import Mathlib.Tactic.NormNum

/-!
# Significant digits

A positive number is rounded at the place of its last significant digit, and a carry out of the first
digit makes it the next power of ten. The digits stand for a number at most half a unit of that place
away. All numbers that are close to the number of the digits have these digits, also those that fall
short of a power of ten and have one place more before they are rounded.
-/

namespace HalfPrecision.Decimal

/-- The number that `precision` digits stand for, the first of which counts `10 ^ exponent`. -/
def digitsValue (precision n : Nat) (exponent : Int) : Rat := n * 10 ^ (exponent + 1 - precision)

/-- Whether a positive number is rounded to `precision` digits. Their first place is that of the
number, unless they are raised to the next power of ten. -/
structure IsSignificant (precision : Nat) (q : Fraction) (n : Nat) (exponent : Int) : Prop where
  le : 10 ^ (precision - 1) ≤ n
  lt : n < 10 ^ precision
  exponent_eq : exponent = q.log10 ∨ exponent = q.log10 + 1 ∧ n = 10 ^ (precision - 1)
  near : |q.toRat - digitsValue precision n exponent| ≤ 10 ^ (q.log10 + 1 - precision) / 2

section Digits

variable {precision n : Nat} {exponent e : Int} {q : Fraction} (hprecision : 0 < precision)

include hprecision

/-- The unit of the last place goes into a power of ten as often as there are numbers of as many
digits as lie between them. -/
theorem ten_zpow_eq_mul_unit :
    (10 : Rat) ^ (e + 1) = (10 ^ precision : Nat) * 10 ^ (e + 1 - precision) ∧
      (10 : Rat) ^ e = (10 ^ (precision - 1) : Nat) * 10 ^ (e + 1 - precision) := by
  have hten : (10 : Rat) ≠ 0 := by norm_num
  constructor
  all_goals
    rw [Nat.cast_pow, Nat.cast_ofNat, ← zpow_natCast, ← zpow_add₀ hten]
    congr 1
    omega

/-- How many units of the last place there are in a positive number. -/
theorem unit_bounds (hq : q.num ≠ 0) :
    (10 ^ (precision - 1) : Nat) * 10 ^ (q.log10 + 1 - precision) ≤ q.toRat ∧
      q.toRat < (10 ^ precision : Nat) * 10 ^ (q.log10 + 1 - precision) := by
  obtain ⟨hnext, hfirst⟩ := ten_zpow_eq_mul_unit (e := q.log10) hprecision
  rw [← hnext, ← hfirst]
  exact q.ten_zpow_log10 hq

/-- A positive number is rounded to its digits. -/
theorem isSignificant_significant (hq : q.num ≠ 0) :
    IsSignificant precision q (significant precision q).1 (significant precision q).2 := by
  have hpower : 10 ^ precision = 10 * 10 ^ (precision - 1) := (mul_pow_sub_one hprecision.ne' 10).symm
  obtain ⟨hlow, hhigh⟩ := unit_bounds hprecision hq
  have hunit : (0 : Rat) < 10 ^ (q.log10 + 1 - precision) := by positivity
  obtain ⟨m, hm⟩ : ∃ m, m = (q.scaleTen (precision - 1 - q.log10)).round := ⟨_, rfl⟩
  have hnear : |q.toRat - m * 10 ^ (q.log10 + 1 - precision)| ≤
      10 ^ (q.log10 + 1 - precision) / 2 := by
    have hround := (q.scaleTen (precision - 1 - q.log10)).abs_toRat_sub_round_le
    have hinverse : (10 : Rat) ^ (precision - 1 - q.log10) = (10 ^ (q.log10 + 1 - precision))⁻¹ := by
      rw [← zpow_neg]
      congr 1
      omega
    rw [← hm, Fraction.toRat_scaleTen, hinverse, ← div_eq_mul_inv] at hround
    have hscaled := mul_le_mul_of_nonneg_right hround hunit.le
    rwa [← abs_of_pos hunit, ← abs_mul, abs_of_pos hunit, sub_mul, div_mul_cancel₀ _ hunit.ne',
      one_div_mul_eq_div] at hscaled
  obtain ⟨hbelow, habove⟩ := abs_le.1 hnear
  have hle : 10 ^ (precision - 1) ≤ m := by
    have hlt : ((10 ^ (precision - 1) : Nat) : Rat) < (m + 1 : Nat) := by
      refine lt_of_mul_lt_mul_right ?_ hunit.le
      push_cast at hlow ⊢
      linarith
    exact Nat.le_of_lt_succ (Nat.cast_lt.1 hlt)
  have hge : m ≤ 10 ^ precision := by
    have hlt : (m : Rat) < (10 ^ precision + 1 : Nat) := by
      refine lt_of_mul_lt_mul_right ?_ hunit.le
      push_cast at hhigh ⊢
      linarith
    exact Nat.le_of_lt_succ (Nat.cast_lt.1 hlt)
  unfold significant
  simp only [← hm]
  split
  next hcarry =>
    refine ⟨le_rfl, ?_, .inr ⟨rfl, rfl⟩, ?_⟩
    · have := Nat.pow_pos (n := precision - 1) Fraction.ten_pos
      omega
    · rw [hcarry, ← (ten_zpow_eq_mul_unit hprecision).1] at hnear
      rwa [digitsValue, ← (ten_zpow_eq_mul_unit hprecision).2]
  next hne => exact ⟨hle, Nat.lt_of_le_of_ne hge hne, .inl rfl, hnear⟩

/-- Also the next power of ten is a number of units of the last place. -/
theorem IsSignificant.exists_digitsValue_eq (h : IsSignificant precision q n exponent) :
    ∃ m : Nat, m ≤ 10 ^ precision ∧
      digitsValue precision n exponent = m * 10 ^ (q.log10 + 1 - precision) := by
  obtain hsame | ⟨hnext, hn⟩ := h.exponent_eq
  · exact ⟨n, h.lt.le, by rw [digitsValue, hsame]⟩
  · refine ⟨10 ^ precision, le_rfl, ?_⟩
    rw [digitsValue, hn, hnext, ← (ten_zpow_eq_mul_unit hprecision).1,
      ← (ten_zpow_eq_mul_unit hprecision).2]

/-- What is close to the number that digits stand for is rounded to them. -/
theorem significant_eq (hle : 10 ^ (precision - 1) ≤ n) (hlt : n < 10 ^ precision)
    (hnear : |q.toRat - digitsValue precision n exponent| <
      10 ^ (exponent + 1 - precision) / 20) :
    significant precision q = (n, exponent) := by
  have hpower : 10 ^ precision = 10 * 10 ^ (precision - 1) := (mul_pow_sub_one hprecision.ne' 10).symm
  have hpos : (1 : Rat) ≤ (10 ^ (precision - 1) : Nat) := by
    exact_mod_cast Nat.pow_pos (n := precision - 1) Fraction.ten_pos
  obtain ⟨hnext, hfirst⟩ := ten_zpow_eq_mul_unit (e := exponent) hprecision
  have hunit : (0 : Rat) < 10 ^ (exponent + 1 - precision) := by positivity
  have hlow : ((10 ^ (precision - 1) : Nat) : Rat) ≤ n := Nat.cast_le.2 hle
  have hhigh : (n : Rat) + 1 ≤ (10 ^ precision : Nat) := by exact_mod_cast hlt
  have hinverse : (10 : Rat) ^ (precision - 1 - exponent) =
      (10 ^ (exponent + 1 - precision))⁻¹ := by
    rw [← zpow_neg]
    congr 1
    omega
  rw [digitsValue] at hnear
  generalize (10 : Rat) ^ (exponent + 1 - precision) = unit at *
  have hscaled : |q.toRat / unit - n| < 1 / 20 := by
    rw [← mul_lt_mul_iff_left₀ hunit, ← abs_of_pos hunit, ← abs_mul, abs_of_pos hunit, sub_mul,
      div_mul_cancel₀ _ hunit.ne', one_div_mul_eq_div]
    exact hnear
  obtain ⟨hbelow, habove⟩ := abs_lt.1 hscaled
  rcases le_or_gt ((10 : Rat) ^ exponent) q.toRat with hplace | hshort
  · have hlog : q.log10 = exponent := by
      refine q.log10_eq hplace ?_
      rw [hnext, ← div_lt_iff₀ hunit]
      linarith
    have hround : (q.scaleTen (precision - 1 - q.log10)).round = n := by
      apply Fraction.round_eq_of_near
      rw [Fraction.toRat_scaleTen, hlog, hinverse, ← div_eq_mul_inv]
      linarith
    rw [significant]
    rw [hlog] at hround
    simp only [hlog, hround, if_neg hlt.ne]
  · -- The number falls short of a power of ten, so it has one place more and a carry out of it.
    rw [hfirst, ← div_lt_iff₀ hunit] at hshort
    have hn : n = 10 ^ (precision - 1) := by
      have hlt : (n : Rat) < (10 ^ (precision - 1) + 1 : Nat) := by
        push_cast at hshort ⊢
        linarith
      exact Nat.le_antisymm (Nat.le_of_lt_succ (Nat.cast_lt.1 hlt)) hle
    have hlog : q.log10 = exponent - 1 := by
      refine q.log10_eq ?_ ?_
      · rw [zpow_sub_one₀ (by norm_num), hfirst, mul_right_comm, ← le_div_iff₀ hunit, ← hn]
        rw [← hn] at hpos
        linarith
      · rw [sub_add_cancel, hfirst, ← div_lt_iff₀ hunit]
        exact hshort
    have hround : (q.scaleTen (precision - 1 - q.log10)).round = 10 ^ precision := by
      apply Fraction.round_eq_of_near
      have hshift : (precision - 1 - (exponent - 1) : Int) = precision - 1 - exponent + 1 := by omega
      have hten : q.toRat * (unit⁻¹ * 10) - (10 ^ precision : Nat) = (q.toRat / unit - n) * 10 := by
        rw [hpower, ← hn]
        push_cast
        ring
      rw [Fraction.toRat_scaleTen, hlog, hshift, zpow_add_one₀ (by norm_num), hinverse, hten,
        abs_mul, abs_of_pos (by norm_num : (0 : Rat) < 10)]
      linarith
    rw [significant]
    rw [hlog] at hround
    simp only [hlog, hround, if_true, sub_add_cancel, hn]

end Digits

end HalfPrecision.Decimal
