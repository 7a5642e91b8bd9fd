import HalfPrecision.Layout.Fields
import Mathlib.Algebra.Order.Field.Power
import Mathlib.Algebra.Order.Field.Rat
import Mathlib.Order.Monotone.Basic

/-!
# Values of patterns

The bits of a pattern below its sign are its magnitude. A magnitude is a whole number of units, the
unit being the spacing of the denormals, and this number grows strictly with the magnitude: through
the denormals, across every exponent, and up to the pattern of infinity, which is counted here as
the power of two that would follow the greatest finite number. Rounding is stated by distances on
this scale.
-/

namespace HalfPrecision.Layout

variable (L : Layout)

/-- The bits of the word below the sign. -/
def magnitudeBits (bits : Int) : Nat := L.wrap bits % L.signMask

/-- A magnitude as a number of units. A normal significand is doubled once for each exponent above
the first. -/
def units (magnitude : Nat) : Nat :=
  if magnitude < L.hiddenBit then magnitude
  else (L.hiddenBit + magnitude % L.hiddenBit) * 2 ^ (magnitude / L.hiddenBit - 1)

/-- The value of the least denormal. -/
def unit : Rat := 2 ^ (1 - L.bias - L.mantissaBits : Int)

def magnitudeValue (magnitude : Nat) : Rat := L.units magnitude * L.unit

/-- The value of a finite pattern. -/
def value (bits : Int) : Rat :=
  (-1) ^ (L.fields bits).sign * L.magnitudeValue (L.magnitudeBits bits)

/-- The number that the stored fields of a finite pattern stand for. -/
def fieldsValue (f : Fields) : Rat :=
  (-1) ^ f.sign *
    if f.exponent = 0 then (f.mantissa : Rat) * 2 ^ (1 - L.bias - L.mantissaBits : Int)
    else (2 ^ L.mantissaBits + f.mantissa : Rat) * 2 ^ (f.exponent - L.bias - L.mantissaBits : Int)

/-- Whether a pattern is neither an infinity nor a NaN. -/
def IsFinite (bits : Int) : Prop := (L.fields bits).exponent ≠ L.exponentMax

/-- Whether a pattern is a NaN. -/
def IsNaN (bits : Int) : Prop :=
  (L.fields bits).exponent = L.exponentMax ∧ (L.fields bits).mantissa ≠ 0

instance (bits : Int) : Decidable (L.IsFinite bits) := inferInstanceAs (Decidable (_ ≠ _))

instance (bits : Int) : Decidable (L.IsNaN bits) := inferInstanceAs (Decidable (_ ∧ _))

/-- The magnitude nearest to a number, the greater one of two that are equally near. -/
def IsNearestAway (v : Rat) (magnitude : Nat) : Prop :=
  magnitude ≤ L.infinity ∧ ∀ other ≤ L.infinity,
    |L.magnitudeValue magnitude - v| ≤ |L.magnitudeValue other - v| ∧
      (|L.magnitudeValue other - v| = |L.magnitudeValue magnitude - v| → other ≤ magnitude)

/-- The magnitude nearest to a number, the even one of two that are equally near. -/
def IsNearestEven (v : Rat) (magnitude : Nat) : Prop :=
  magnitude ≤ L.infinity ∧ ∀ other ≤ L.infinity,
    |L.magnitudeValue magnitude - v| ≤ |L.magnitudeValue other - v| ∧
      (|L.magnitudeValue other - v| = |L.magnitudeValue magnitude - v| →
        other = magnitude ∨ magnitude % 2 = 0)

theorem magnitudeBits_eq (bits : Int) :
    L.magnitudeBits bits =
      (L.fields bits).exponent * L.hiddenBit + (L.fields bits).mantissa :=
  L.wrap_mod_signMask bits

theorem units_of_lt {magnitude : Nat} (h : magnitude < L.hiddenBit) :
    L.units magnitude = magnitude := if_pos h

theorem units_of_le {magnitude : Nat} (h : L.hiddenBit ≤ magnitude) :
    L.units magnitude =
      (L.hiddenBit + magnitude % L.hiddenBit) * 2 ^ (magnitude / L.hiddenBit - 1) :=
  if_neg (Nat.not_lt.2 h)

/-- The number of units from the stored fields. -/
theorem units_mul_add {exponent mantissa : Nat} (he : 0 < exponent)
    (hm : mantissa < L.hiddenBit) :
    L.units (exponent * L.hiddenBit + mantissa) =
      (L.hiddenBit + mantissa) * 2 ^ (exponent - 1) := by
  have hle : L.hiddenBit ≤ exponent * L.hiddenBit + mantissa :=
    Nat.le_add_right_of_le (Nat.le_mul_of_pos_left _ he)
  rw [L.units_of_le hle, Nat.mul_comm exponent, Nat.mul_add_mod, Nat.mod_eq_of_lt hm,
    Nat.mul_add_div L.hiddenBit_pos, Nat.div_eq_of_lt hm, Nat.add_zero]

theorem units_lt_units_succ (magnitude : Nat) : L.units magnitude < L.units (magnitude + 1) := by
  rcases Nat.lt_trichotomy (magnitude + 1) L.hiddenBit with h | h | h
  · rw [L.units_of_lt h, L.units_of_lt (Nat.lt_of_succ_lt h)]
    exact Nat.lt_succ_self _
  · have hone : magnitude + 1 = 1 * L.hiddenBit + 0 := by omega
    rw [L.units_of_lt (by omega), hone, L.units_mul_add Nat.one_pos L.hiddenBit_pos]
    omega
  · obtain ⟨e, m, hm, rfl⟩ : ∃ e m, m < L.hiddenBit ∧ magnitude = e * L.hiddenBit + m :=
      ⟨_, _, Nat.mod_lt _ L.hiddenBit_pos, (Nat.div_add_mod' magnitude L.hiddenBit).symm⟩
    have he : 0 < e := by
      rcases Nat.eq_zero_or_pos e with rfl | he
      · omega
      · exact he
    rw [L.units_mul_add he hm]
    rcases Nat.lt_or_eq_of_le (Nat.succ_le_of_lt hm) with hlt | heq
    · rw [Nat.add_assoc, L.units_mul_add he hlt]
      exact Nat.mul_lt_mul_of_pos_right (by omega) (Nat.two_pow_pos _)
    · have hnext : e * L.hiddenBit + m + 1 = (e + 1) * L.hiddenBit + 0 := by
        rw [Nat.succ_mul]
        omega
      obtain ⟨k, rfl⟩ := Nat.exists_eq_succ_of_ne_zero he.ne'
      rw [hnext, L.units_mul_add (Nat.succ_pos _) L.hiddenBit_pos, Nat.succ_sub_one,
        Nat.succ_sub_one, Nat.pow_succ, Nat.mul_comm _ 2, ← Nat.mul_assoc]
      exact Nat.mul_lt_mul_of_pos_right (by omega) (Nat.two_pow_pos _)

theorem units_strictMono : StrictMono L.units := strictMono_nat_of_lt_succ L.units_lt_units_succ

theorem unit_pos : 0 < L.unit := zpow_pos (by decide) _

theorem magnitudeValue_strictMono : StrictMono L.magnitudeValue := fun _ _ h =>
  mul_lt_mul_of_pos_right (Nat.cast_lt.2 (L.units_strictMono h)) L.unit_pos

theorem magnitudeValue_nonneg (magnitude : Nat) : 0 ≤ L.magnitudeValue magnitude :=
  mul_nonneg (Nat.cast_nonneg _) L.unit_pos.le

/-- A normal magnitude has its significand times the power of two of its exponent. -/
theorem magnitudeValue_mul_add {exponent mantissa : Nat} (he : 0 < exponent)
    (hm : mantissa < L.hiddenBit) :
    L.magnitudeValue (exponent * L.hiddenBit + mantissa) =
      (L.hiddenBit + mantissa : Nat) * 2 ^ (exponent - L.bias - L.mantissaBits : Int) := by
  have hpow : (2 : Rat) ^ (exponent - 1) * L.unit =
      2 ^ (exponent - L.bias - L.mantissaBits : Int) := by
    rw [unit, ← zpow_natCast, ← zpow_add₀ two_ne_zero]
    congr 1
    omega
  rw [magnitudeValue, L.units_mul_add he hm, Nat.cast_mul, Nat.cast_pow, mul_assoc]
  exact congrArg _ hpow

theorem value_eq_fieldsValue (bits : Int) : L.value bits = L.fieldsValue (L.fields bits) := by
  have hmantissa := L.mantissa_lt bits
  rw [value, magnitudeBits_eq, fieldsValue]
  split
  next hzero =>
    rw [hzero, Nat.zero_mul, Nat.zero_add, magnitudeValue, L.units_of_lt hmantissa, unit]
  next hne =>
    rw [L.magnitudeValue_mul_add (Nat.pos_of_ne_zero hne) hmantissa, hiddenBit]
    push_cast
    rfl

/-- The least normal number. -/
theorem magnitudeValue_hiddenBit : L.magnitudeValue L.hiddenBit = 2 ^ (1 - L.bias : Int) := by
  have hvalue := L.magnitudeValue_mul_add Nat.one_pos L.hiddenBit_pos
  rw [Nat.one_mul, Nat.add_zero] at hvalue
  rw [hvalue, hiddenBit, Nat.cast_pow, Nat.cast_ofNat, ← zpow_natCast, ← zpow_add₀ two_ne_zero]
  congr 1
  omega

/-- Infinity is counted as the power of two that would follow the greatest finite number. -/
theorem magnitudeValue_infinity :
    L.magnitudeValue L.infinity = 2 ^ (L.exponentMax - L.bias : Int) := by
  have hmax : 0 < L.exponentMax :=
    Nat.sub_pos_of_lt (Nat.one_lt_two_pow L.exponentBits_pos.ne')
  have h := L.magnitudeValue_mul_add hmax L.hiddenBit_pos
  rw [Nat.add_zero, Nat.add_zero, hiddenBit, Nat.cast_pow, Nat.cast_ofNat, ← zpow_natCast,
    ← zpow_add₀ two_ne_zero] at h
  rw [infinity, exponentMask, h]
  congr 1
  omega

end HalfPrecision.Layout
