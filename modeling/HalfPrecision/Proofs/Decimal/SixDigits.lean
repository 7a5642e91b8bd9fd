import HalfPrecision.Proofs.Decimal.Significant
import HalfPrecision.Proofs.Layout.Nearest
import HalfPrecision.Proofs.Conversion.Nearest

/-!
# Six digits of doubles

A normal double is rounded to six digits, and the double nearest to these stands in for it. That one
is finite, since leaving out digits raises no double beyond the greatest one. It is so close to the
digits that it is rounded to the same ones, also where these are a power of ten.
-/

namespace HalfPrecision.Decimal

open Layout

/-- The greatest finite double has 179769 as its first six digits, and the seventh is below a half. -/
theorem digits_greatest :
    (179769 : Rat) * 10 ^ (303 : Int) ≤ double.magnitudeValue (double.infinity - 1) ∧
      double.magnitudeValue (double.infinity - 1) < (179769 + 1 / 2) * 10 ^ (303 : Int) := by
  have hsplit : double.infinity - 1 = 2046 * double.hiddenBit + (double.hiddenBit - 1) := by decide
  have hpower : ((2046 : Nat) - double.bias - double.mantissaBits : Int) = (971 : Nat) := rfl
  have hvalue : double.magnitudeValue (double.infinity - 1) = ((2 ^ 53 - 1) * 2 ^ 971 : Nat) := by
    rw [hsplit, double.magnitudeValue_mul_add (by decide) (by decide), hpower, zpow_natCast,
      Nat.cast_mul, Nat.cast_pow]
    rfl
  have hlow : 179769 * 10 ^ 303 ≤ (2 ^ 53 - 1) * 2 ^ 971 := by decide +kernel
  have hhigh : 2 * ((2 ^ 53 - 1) * 2 ^ 971) < (2 * 179769 + 1) * 10 ^ 303 := by decide +kernel
  have hten : (10 : Rat) ^ (303 : Int) = (10 ^ 303 : Nat) := by
    rw [Nat.cast_pow]
    rfl
  rw [hvalue, hten]
  generalize 10 ^ 303 = power at *
  generalize (2 ^ 53 - 1) * 2 ^ 971 = greatest at *
  constructor
  · exact_mod_cast hlow
  · have hcast : (2 : Rat) * greatest < (2 * 179769 + 1) * power := by
      exact_mod_cast hhigh
    linarith

section Rounding

variable {q : Fraction} {n magnitude : Nat} {exponent : Int}

/-- No finite double is raised beyond the greatest one by leaving out digits. -/
theorem digitsValue_le_greatest (h : IsSignificant 6 q n exponent) (hq : q.num ≠ 0)
    (hfinite : q.toRat ≤ double.magnitudeValue (double.infinity - 1)) :
    digitsValue 6 n exponent ≤ double.magnitudeValue (double.infinity - 1) := by
  obtain ⟨m, hm, hvalue⟩ := h.exists_digitsValue_eq (by decide)
  obtain ⟨hlow, -⟩ := q.ten_zpow_log10 hq
  obtain ⟨hleast, hgreatest⟩ := digits_greatest
  have hnear := (abs_le.1 h.near).1
  have hten : (1 : Rat) ≤ 10 := by norm_num
  have hpos : (0 : Rat) < 10 ^ (303 : Int) := by positivity
  have hbelow : (10 : Rat) ^ (302 : Int) = 10 ^ (303 : Int) / 10 := by
    rw [eq_div_iff (by norm_num), ← zpow_add_one₀ (by norm_num)]
    rfl
  have habove : (10 : Rat) ^ (309 : Int) = 10 ^ (303 : Int) * 10 ^ 6 := by
    rw [← zpow_natCast, ← zpow_add₀ (by norm_num)]
    rfl
  generalize hpower : (10 : Rat) ^ (303 : Int) = power at *
  rw [hvalue] at hnear ⊢
  rcases lt_trichotomy q.log10 308 with hlog | hlog | hlog
  · have hunit : (10 : Rat) ^ (q.log10 + 1 - (6 : Nat)) ≤ 10 ^ (302 : Int) := by
      apply zpow_le_zpow_right₀ hten
      omega
    rw [hbelow] at hunit
    have hm : (m : Rat) ≤ 10 ^ 6 := by exact_mod_cast hm
    calc (m : Rat) * 10 ^ (q.log10 + 1 - (6 : Nat))
        ≤ 10 ^ 6 * (power / 10) := mul_le_mul hm hunit (by positivity) (by positivity)
      _ ≤ double.magnitudeValue (double.infinity - 1) := by linarith only [hleast, hpos]
  · have hunit : (10 : Rat) ^ (q.log10 + 1 - (6 : Nat)) = power := by
      rw [hlog]
      exact hpower
    rw [hunit] at hnear ⊢
    have hlt : (m : Rat) < (179769 + 1 : Nat) := by
      refine lt_of_mul_lt_mul_right ?_ hpos.le
      push_cast
      linarith
    have hle : (m : Rat) ≤ (179769 : Nat) := Nat.cast_le.2 (Nat.le_of_lt_succ (Nat.cast_lt.1 hlt))
    exact (mul_le_mul_of_nonneg_right hle hpos.le).trans hleast
  · have hgreat : (10 : Rat) ^ (309 : Int) ≤ 10 ^ q.log10 := zpow_le_zpow_right₀ hten hlog
    rw [habove] at hgreat
    linarith only [hgreat, hlow, hfinite, hgreatest, hpos]

/-- The double nearest to the six digits of a normal double is much nearer to them than a unit of the
last one. -/
theorem abs_sub_digitsValue_le (h : IsSignificant 6 q n exponent) (hq : q.num ≠ 0)
    (hlow : double.magnitudeValue double.hiddenBit ≤ q.toRat)
    (hhigh : q.toRat ≤ double.magnitudeValue (double.infinity - 1))
    (hnear : double.IsNearest (digitsValue 6 n exponent) magnitude) :
    |double.magnitudeValue magnitude - digitsValue 6 n exponent| ≤ q.toRat / 2 ^ 51 := by
  have hrange := digitsValue_le_greatest h hq hhigh
  have hfinite : double.infinity - 1 < double.infinity := by decide
  have hinfinity := double.magnitudeValue_strictMono hfinite
  have hleast : double.unit * 2 ^ 52 ≤ q.toRat := by
    have hvalue := double.magnitudeValue_mul_hiddenBit Nat.one_pos
    rw [Nat.one_mul, spacing_one, mul_comm] at hvalue
    exact hvalue ▸ hlow
  have hhidden : (double.hiddenBit : Rat) = 2 ^ 52 := Nat.cast_pow 2 52
  have hpos : (0 : Rat) < 10 ^ (q.log10 + 1 - (6 : Nat)) := by positivity
  obtain ⟨hplace, -⟩ := unit_bounds (by decide : 0 < 6) hq
  obtain ⟨hbelow, habove⟩ := abs_le.1 h.near
  generalize (10 : Rat) ^ (q.log10 + 1 - (6 : Nat)) = last at *
  norm_num at hplace
  have herror := hnear.abs_sub_le (by linarith) (by linarith)
  rw [hhidden] at herror
  linarith

/-- A magnitude of doubles that stands in for a number. It has the same six digits, and it is off by
about half a unit of the last one, of which there may be as few as a hundred thousand. -/
structure StandsFor (magnitude : Nat) (q : Fraction) : Prop where
  pos : 0 < magnitude
  lt : magnitude < double.infinity
  near : |double.magnitudeValue magnitude - q.toRat| ≤ 5.000001e-6 * q.toRat
  digits : ∀ own : Fraction, own.toRat = double.magnitudeValue magnitude →
    significant 6 own = significant 6 q

/-- The double nearest to the six digits of a normal double stands in for it. -/
theorem standsFor_of_isNearest (hq : q.num ≠ 0)
    (hlow : double.magnitudeValue double.hiddenBit ≤ q.toRat)
    (hhigh : q.toRat ≤ double.magnitudeValue (double.infinity - 1))
    (hdigits : significant 6 q = (n, exponent))
    (hnear : double.IsNearest (digitsValue 6 n exponent) magnitude) :
    StandsFor magnitude q := by
  have hsix : 0 < 6 := by decide
  have h : IsSignificant 6 q n exponent := by
    have h := isSignificant_significant hsix hq
    rwa [hdigits] at h
  have hclose := abs_sub_digitsValue_le h hq hlow hhigh hnear
  have hrange := digitsValue_le_greatest h hq hhigh
  obtain ⟨hplace, hplace'⟩ := unit_bounds hsix hq
  have hpos : (0 : Rat) < 10 ^ (q.log10 + 1 - (6 : Nat)) := by positivity
  have hlast : (10 : Rat) ^ (q.log10 + 1 - (6 : Nat)) ≤ 10 ^ (exponent + 1 - (6 : Nat)) := by
    apply zpow_le_zpow_right₀ (by norm_num)
    have := h.exponent_eq
    omega
  have hsame (own : Fraction)
      (hown : |own.toRat - digitsValue 6 n exponent| < 10 ^ (exponent + 1 - (6 : Nat)) / 20) :
      significant 6 own = (n, exponent) := significant_eq hsix h.le h.lt hown
  obtain ⟨hbelow, habove⟩ := abs_le.1 h.near
  obtain ⟨hclose₁, hclose₂⟩ := abs_le.1 hclose
  generalize (10 : Rat) ^ (q.log10 + 1 - (6 : Nat)) = last at *
  generalize (10 : Rat) ^ (exponent + 1 - (6 : Nat)) = last' at *
  generalize digitsValue 6 n exponent = digits at *
  norm_num at hplace hplace'
  refine ⟨?_, ?_, ?_, ?_⟩
  · refine Nat.pos_of_ne_zero ?_
    rintro rfl
    rw [magnitudeValue_zero] at hclose₁
    linarith
  · have hfinite : double.infinity - 1 < double.infinity := by decide
    exact (hnear.le_of_le_magnitudeValue hrange).trans_lt hfinite
  · rw [abs_le]
    constructor <;> linarith
  · intro own hown
    rw [hdigits]
    apply hsame
    rw [hown]
    linarith

end Rounding

end HalfPrecision.Decimal
