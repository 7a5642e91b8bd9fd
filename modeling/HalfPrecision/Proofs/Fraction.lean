import HalfPrecision.Fraction
import Mathlib.Algebra.Order.Field.Power
import Mathlib.Algebra.Order.Field.Rat
import Mathlib.Tactic.FieldSimp
import Mathlib.Tactic.Linarith
import Mathlib.Tactic.Positivity
import Mathlib.Tactic.Ring

/-!
# Values of fractions

A fraction stands for a rational number. Scaling multiplies that number by a power, the binary and
the decimal exponent place it between two powers of two and of ten, and rounding gives an integer at
most a half away, which is even where there is a choice.
-/

namespace HalfPrecision.Fraction

variable (q : Fraction)

/-- The number that a fraction stands for. -/
def toRat : Rat := q.num / q.den

theorem cast_den_pos : (0 : Rat) < q.den := Nat.cast_pos.2 q.den_pos

@[simp] theorem toRat_ofNat (n : Nat) : (ofNat n).toRat = n := by
  rw [toRat, ofNat, Nat.cast_one, div_one]

theorem toRat_of_num_eq_zero (h : q.num = 0) : q.toRat = 0 := by
  rw [toRat, h, Nat.cast_zero, zero_div]

/-- A fraction is an integer if its denominator divides its numerator. -/
theorem toRat_eq_intCast_iff {n : Int} :
    q.toRat = n ↔ q.num % q.den = 0 ∧ (q.num / q.den : Nat) = n := by
  have hsplit := Nat.div_add_mod' q.num q.den
  rw [toRat, div_eq_iff q.cast_den_pos.ne']
  constructor
  · intro h
    have hnum : (q.num : Int) = n * q.den := by exact_mod_cast h
    have hnonneg : 0 ≤ n := by
      by_contra hneg
      have := Int.mul_neg_of_neg_of_pos (not_le.1 hneg) (Int.natCast_pos.2 q.den_pos)
      omega
    obtain ⟨k, rfl⟩ := Int.eq_ofNat_of_zero_le hnonneg
    have hproduct : q.num = k * q.den := by exact_mod_cast hnum
    rw [hproduct, Nat.mul_div_cancel _ q.den_pos]
    exact ⟨Nat.mul_mod_left _ _, rfl⟩
  · rintro ⟨hrest, rfl⟩
    rw [hrest, Nat.add_zero] at hsplit
    exact_mod_cast hsplit.symm

theorem toRat_scale {b : Nat} (hb : 0 < b) (e : Int) :
    (q.scale b hb e).toRat = q.toRat * (b : Rat) ^ e := by
  have hbase : (b : Rat) ≠ 0 := Nat.cast_ne_zero.2 hb.ne'
  unfold scale
  split
  next h =>
    obtain ⟨n, rfl⟩ := Int.eq_ofNat_of_zero_le h
    rw [toRat, toRat, zpow_natCast, Int.toNat_natCast, Nat.cast_mul, Nat.cast_pow]
    ring
  next h =>
    obtain ⟨n, rfl⟩ : ∃ n : Nat, e = -n := ⟨(-e).toNat, by omega⟩
    have hpower : (-(-n : Int)).toNat = n := by omega
    have hden := q.cast_den_pos.ne'
    simp only [toRat, hpower, Nat.cast_mul, Nat.cast_pow, zpow_neg, zpow_natCast]
    field_simp

theorem toRat_scaleTwo (e : Int) : (q.scaleTwo e).toRat = q.toRat * 2 ^ e :=
  q.toRat_scale Nat.two_pos e

theorem toRat_scaleTen (e : Int) : (q.scaleTen e).toRat = q.toRat * 10 ^ e :=
  q.toRat_scale ten_pos e

theorem atLeastOne_iff : q.atLeastOne = true ↔ 1 ≤ q.toRat := by
  rw [atLeastOne, decide_eq_true_iff, toRat, one_le_div q.cast_den_pos, Nat.cast_le]

/-- The powers of a base between which a fraction lies are guessed from those of its numerator and
its denominator; the guess is right or one too high, and one comparison tells. -/
theorem exists_pow_le_toRat {b : Nat} (hb : 1 < b) {m n : Nat} (hm : b ^ m ≤ q.num)
    (hm' : q.num < b ^ (m + 1)) (hn : b ^ n ≤ q.den) (hn' : q.den < b ^ (n + 1)) :
    let guess : Int := m - n
    let e := if (q.scale b (Nat.zero_lt_of_lt hb) (-guess)).atLeastOne then guess else guess - 1
    (b : Rat) ^ e ≤ q.toRat ∧ q.toRat < (b : Rat) ^ (e + 1) := by
  intro guess e
  have hbase : (0 : Rat) < b := Nat.cast_pos.2 (Nat.zero_lt_of_lt hb)
  have hpow (k : Int) : (0 : Rat) < (b : Rat) ^ k := zpow_pos hbase k
  have hnum : (b : Rat) ^ (m : Int) ≤ q.num ∧ (q.num : Rat) < (b : Rat) ^ (m + 1 : Int) := by
    exact_mod_cast And.intro hm hm'
  have hden : (b : Rat) ^ (n : Int) ≤ q.den ∧ (q.den : Rat) < (b : Rat) ^ (n + 1 : Int) := by
    exact_mod_cast And.intro hn hn'
  have hlow : (b : Rat) ^ (guess - 1) < q.toRat := by
    rw [toRat, lt_div_iff₀ q.cast_den_pos]
    calc (b : Rat) ^ (guess - 1) * q.den
        < (b : Rat) ^ (guess - 1) * (b : Rat) ^ (n + 1 : Int) :=
          mul_lt_mul_of_pos_left hden.2 (hpow _)
      _ = (b : Rat) ^ (m : Int) := by
          rw [← zpow_add₀ hbase.ne']
          congr 1
          omega
      _ ≤ q.num := hnum.1
  have hhigh : q.toRat < (b : Rat) ^ (guess + 1) := by
    rw [toRat, div_lt_iff₀ q.cast_den_pos]
    calc (q.num : Rat) < (b : Rat) ^ (m + 1 : Int) := hnum.2
      _ = (b : Rat) ^ (guess + 1) * (b : Rat) ^ (n : Int) := by
          rw [← zpow_add₀ hbase.ne']
          congr 1
          omega
      _ ≤ (b : Rat) ^ (guess + 1) * q.den := mul_le_mul_of_nonneg_left hden.1 (hpow _).le
  have htest : (q.scale b (Nat.zero_lt_of_lt hb) (-guess)).atLeastOne = true ↔
      (b : Rat) ^ guess ≤ q.toRat := by
    rw [atLeastOne_iff, toRat_scale, zpow_neg, ← div_eq_mul_inv, one_le_div (hpow _)]
  by_cases h : (b : Rat) ^ guess ≤ q.toRat
  · have he : e = guess := if_pos (htest.2 h)
    rw [he]
    exact ⟨h, hhigh⟩
  · have he : e = guess - 1 := if_neg (htest.not.2 h)
    rw [he, sub_add_cancel]
    exact ⟨hlow.le, not_le.1 h⟩

/-- The binary exponent of a positive fraction. -/
theorem two_zpow_log2 (h : q.num ≠ 0) :
    (2 : Rat) ^ q.log2 ≤ q.toRat ∧ q.toRat < 2 ^ (q.log2 + 1) :=
  q.exists_pow_le_toRat Nat.one_lt_two (Nat.log2_self_le h) Nat.lt_log2_self
    (Nat.log2_self_le q.den_pos.ne') Nat.lt_log2_self

/-- The number of decimal digits places a number between two powers of ten. -/
theorem exists_digitCount_eq {n : Nat} (h : n ≠ 0) :
    ∃ k, digitCount n = k + 1 ∧ 10 ^ k ≤ n ∧ n < 10 ^ (k + 1) := by
  fun_induction digitCount n with
  | case1 n hlt => exact ⟨0, rfl, Nat.pos_of_ne_zero h, hlt⟩
  | case2 n hge ih =>
    obtain ⟨k, hcount, hlow, hhigh⟩ := ih (by omega)
    refine ⟨k + 1, by rw [hcount], ?_, ?_⟩
    · rw [Nat.pow_succ]
      omega
    · rw [Nat.pow_succ]
      omega

/-- The decimal exponent of a positive fraction. -/
theorem ten_zpow_log10 (h : q.num ≠ 0) :
    (10 : Rat) ^ q.log10 ≤ q.toRat ∧ q.toRat < 10 ^ (q.log10 + 1) := by
  obtain ⟨m, hm, hnum, hnum'⟩ := exists_digitCount_eq h
  obtain ⟨n, hn, hden, hden'⟩ := exists_digitCount_eq q.den_pos.ne'
  have hguess : ((digitCount q.num : Int) - digitCount q.den) = m - n := by omega
  have hbounds := q.exists_pow_le_toRat (b := 10) (by decide) hnum hnum' hden hden'
  rw [log10, hguess]
  exact hbounds

/-- No other exponent places a fraction between two powers of ten. -/
theorem log10_eq {e : Int} (hlow : (10 : Rat) ^ e ≤ q.toRat) (hhigh : q.toRat < 10 ^ (e + 1)) :
    q.log10 = e := by
  have hten : (1 : Rat) < 10 := by norm_num
  have hnum : q.num ≠ 0 := by
    intro hzero
    rw [q.toRat_of_num_eq_zero hzero] at hlow
    exact hlow.not_gt (by positivity)
  obtain ⟨hlow', hhigh'⟩ := q.ten_zpow_log10 hnum
  have hle := (zpow_lt_zpow_iff_right₀ hten).1 (hlow.trans_lt hhigh')
  have hge := (zpow_lt_zpow_iff_right₀ hten).1 (hlow'.trans_lt hhigh)
  omega

theorem toRat_le_round_add_half : q.toRat ≤ q.round + 1 / 2 := by
  have hnear : (2 : Rat) * q.num ≤ 2 * (q.round * q.den) + q.den := by
    exact_mod_cast q.round_near.1
  rw [toRat, div_le_iff₀ q.cast_den_pos]
  linarith

theorem round_sub_half_le_toRat : (q.round : Rat) - 1 / 2 ≤ q.toRat := by
  have hnear : (2 : Rat) * (q.round * q.den) ≤ 2 * q.num + q.den := by
    exact_mod_cast q.round_near.2
  rw [toRat, le_div_iff₀ q.cast_den_pos]
  linarith

/-- The rounded number is at most a half away. -/
theorem abs_toRat_sub_round_le : |q.toRat - q.round| ≤ 1 / 2 := by
  have habove := q.toRat_le_round_add_half
  have hbelow := q.round_sub_half_le_toRat
  rw [abs_le]
  constructor <;> linarith

/-- What is less than a half away from an integer is rounded to it. -/
theorem round_eq_of_near {n : Nat} (h : |q.toRat - n| < 1 / 2) : q.round = n := by
  have hround := q.abs_toRat_sub_round_le
  have hdistance : |(q.round : Rat) - n| < 1 :=
    calc |(q.round : Rat) - n| ≤ |(q.round : Rat) - q.toRat| + |q.toRat - n| := abs_sub_le _ _ _
      _ < 1 := by
        rw [abs_sub_comm]
        linarith
  have hinteger : |(q.round : Int) - n| < 1 := by exact_mod_cast hdistance
  have := Int.abs_lt_one_iff.1 hinteger
  omega

/-- Halfway between two integers the even one is taken. -/
theorem round_mod_two_of_half {n : Nat} (h : q.toRat = n + 1 / 2) : q.round % 2 = 0 := by
  apply q.round_of_half
  have hnum : 2 * q.num = 2 * n * q.den + q.den := by
    rw [toRat, div_eq_iff q.cast_den_pos.ne'] at h
    have : (2 : Rat) * q.num = 2 * n * q.den + q.den := by
      rw [h]
      ring
    exact_mod_cast this
  have hsplit := Nat.div_add_mod' q.num q.den
  have hrest := Nat.mod_lt q.num q.den_pos
  have hquotient : q.num / q.den = n := by
    apply Nat.div_eq_of_lt_le
    · rw [Nat.mul_assoc] at hnum
      omega
    · rw [Nat.mul_assoc] at hnum
      rw [Nat.succ_mul]
      have := q.den_pos
      omega
  rw [hquotient] at hsplit
  rw [Nat.mul_assoc] at hnum
  omega

end HalfPrecision.Fraction
