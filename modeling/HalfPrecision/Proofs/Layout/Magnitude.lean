import HalfPrecision.Layout
import HalfPrecision.Layout.Value
import Mathlib.Algebra.Order.Ring.Abs

/-!
# Signs and magnitudes

A word is a sign above a magnitude, and the order of the magnitudes tells the classes of patterns
apart: the finite ones lie below infinity and the NaNs above it. A pattern joined from a sign and a
magnitude has that sign, that magnitude, and the value they stand for.
-/

namespace HalfPrecision.Layout

variable (L : Layout)

theorem exponentMax_pos : 0 < L.exponentMax :=
  Nat.sub_pos_of_lt (Nat.one_lt_two_pow L.exponentBits_pos.ne')

theorem exponentMax_lt : L.exponentMax < 2 ^ L.exponentBits :=
  Nat.sub_lt (Nat.two_pow_pos _) Nat.one_pos

theorem bias_lt : L.bias < 2 ^ L.exponentBits := by
  have hle : 2 ^ (L.exponentBits - 1) ≤ 2 ^ L.exponentBits :=
    Nat.pow_le_pow_right Nat.two_pos (Nat.sub_le _ _)
  have hpos := Nat.two_pow_pos (L.exponentBits - 1)
  rw [bias, biasOf]
  omega

theorem exponent_le (bits : Int) : (L.fields bits).exponent ≤ L.exponentMax :=
  Nat.le_sub_one_of_lt (L.exponent_lt bits)

theorem infinity_eq : L.infinity = L.exponentMax * L.hiddenBit := rfl

theorem hiddenBit_le_infinity : L.hiddenBit ≤ L.infinity :=
  Nat.le_mul_of_pos_left _ L.exponentMax_pos

theorem infinity_pos : 0 < L.infinity := L.hiddenBit_pos.trans_le L.hiddenBit_le_infinity

/-- The mantissa of the quiet NaN, which is a single bit. -/
theorem quietMantissa_lt : 2 ^ (L.mantissaBits - 1) < L.hiddenBit :=
  Nat.pow_lt_pow_right Nat.one_lt_two (Nat.sub_lt L.mantissaBits_pos Nat.one_pos)

theorem one_lt_hiddenBit : 1 < L.hiddenBit := Nat.one_lt_two_pow L.mantissaBits_pos.ne'

theorem quietNan_eq :
    L.quietNan = L.exponentMax * L.hiddenBit + 2 ^ (L.mantissaBits - 1) := rfl

theorem quietNan_div_hiddenBit : L.quietNan / L.hiddenBit = L.exponentMax := by
  rw [quietNan_eq, Nat.mul_comm, Nat.mul_add_div L.hiddenBit_pos,
    Nat.div_eq_of_lt L.quietMantissa_lt, Nat.add_zero]

theorem quietNan_mod_hiddenBit : L.quietNan % L.hiddenBit = 2 ^ (L.mantissaBits - 1) := by
  rw [quietNan_eq, Nat.mul_comm, Nat.mul_add_mod, Nat.mod_eq_of_lt L.quietMantissa_lt]

theorem infinity_lt_quietNan : L.infinity < L.quietNan :=
  Nat.lt_add_of_pos_right (Nat.two_pow_pos _)

theorem quietNan_lt_signMask : L.quietNan < L.signMask :=
  L.magnitude_lt L.exponentMax_lt L.quietMantissa_lt

theorem infinity_lt_signMask : L.infinity < L.signMask :=
  L.infinity_lt_quietNan.trans L.quietNan_lt_signMask

@[simp] theorem magnitudeValue_zero : L.magnitudeValue 0 = 0 := by
  rw [magnitudeValue, L.units_of_lt L.hiddenBit_pos, Nat.cast_zero, zero_mul]

/-- The exponents are as many above the bias as up to it. -/
theorem exponentMax_eq : L.exponentMax = 2 * L.bias + 1 := by
  obtain ⟨k, hk⟩ := Nat.exists_eq_succ_of_ne_zero L.exponentBits_pos.ne'
  have := Nat.two_pow_pos k
  rw [exponentMax, bias, biasOf, hk, Nat.succ_sub_one, Nat.pow_succ]
  omega

section Patterns

variable (bits : Int)

/-- A word is its sign above its magnitude. -/
theorem wrap_eq_signed :
    L.wrap bits = L.signed (L.fields bits).sign (L.magnitudeBits bits) := by
  rw [magnitudeBits_eq, signed]
  exact L.wrap_eq bits

theorem magnitudeBits_lt : L.magnitudeBits bits < L.signMask := Nat.mod_lt _ L.signMask_pos

theorem exponent_eq : (L.fields bits).exponent = L.magnitudeBits bits / L.hiddenBit := by
  rw [magnitudeBits_eq, Nat.mul_comm, Nat.mul_add_div L.hiddenBit_pos,
    Nat.div_eq_of_lt (L.mantissa_lt bits), Nat.add_zero]

theorem mantissa_eq : (L.fields bits).mantissa = L.magnitudeBits bits % L.hiddenBit := by
  rw [magnitudeBits_eq, Nat.mul_comm, Nat.mul_add_mod, Nat.mod_eq_of_lt (L.mantissa_lt bits)]

/-- The patterns without an exponent are those below the normal numbers. -/
theorem exponent_eq_zero_iff :
    (L.fields bits).exponent = 0 ↔ L.magnitudeBits bits < L.hiddenBit := by
  rw [exponent_eq, Nat.div_eq_zero_iff_lt L.hiddenBit_pos]

/-- The finite patterns are those below infinity. -/
theorem isFinite_iff : L.IsFinite bits ↔ L.magnitudeBits bits < L.infinity := by
  have hle := L.exponent_le bits
  have hm := L.mantissa_lt bits
  rw [IsFinite, magnitudeBits_eq, infinity_eq]
  constructor
  · intro hne
    have hnext := Nat.mul_le_mul_right L.hiddenBit (Nat.lt_of_le_of_ne hle hne)
    rw [Nat.succ_mul] at hnext
    omega
  · intro hlt heq
    rw [heq] at hlt
    omega

/-- The NaNs are the patterns above infinity. -/
theorem isNaN_iff : L.IsNaN bits ↔ L.infinity < L.magnitudeBits bits := by
  by_cases hfinite : L.IsFinite bits
  · have hlt := (L.isFinite_iff bits).1 hfinite
    exact iff_of_false (fun h => hfinite h.1) (by omega)
  · have heq : (L.fields bits).exponent = L.exponentMax := not_not.1 hfinite
    rw [IsNaN, magnitudeBits_eq, infinity_eq, heq, Nat.lt_add_right_iff_pos]
    exact and_iff_right rfl |>.trans Nat.pos_iff_ne_zero.symm

/-- The classes cut the order of the magnitudes into five pieces. -/
theorem classify_eq :
    L.classify bits =
      if L.magnitudeBits bits = 0 then .zero
      else if L.magnitudeBits bits < L.hiddenBit then .denormal
      else if L.magnitudeBits bits < L.infinity then .normal
      else if L.magnitudeBits bits = L.infinity then .infinity
      else .nan := by
  have hm := L.mantissa_lt bits
  have hmax := L.exponentMax_pos
  have hinf := L.hiddenBit_le_infinity
  have hfinite := L.isFinite_iff bits
  have hlow := (L.exponent_eq_zero_iff bits).symm
  have hnan := L.isNaN_iff bits
  have hmagnitude := L.magnitudeBits_eq bits
  rw [IsFinite] at hfinite
  rw [IsNaN] at hnan
  rw [classify]
  by_cases he : (L.fields bits).exponent = 0
  · have hlt := hlow.2 he
    rw [he, Nat.zero_mul, Nat.zero_add] at hmagnitude
    rw [if_pos he, if_pos hlt, hmagnitude]
  · have hge := hlow.not.2 he
    have hne : L.magnitudeBits bits ≠ 0 := by
      have := L.hiddenBit_pos
      omega
    rw [if_neg he, if_neg hne, if_neg hge]
    by_cases htop : (L.fields bits).exponent = L.exponentMax
    · rw [if_pos htop, if_neg (hfinite.not.1 (not_not.2 htop))]
      by_cases hzero : (L.fields bits).mantissa = 0
      · have hle := hnan.not.1 (fun h => h.2 hzero)
        have hge := hfinite.not.1 (not_not.2 htop)
        rw [if_pos hzero, if_pos (by omega)]
      · have hgt := hnan.1 ⟨htop, hzero⟩
        rw [if_neg hzero, if_neg (by omega)]
    · rw [if_neg htop, if_pos (hfinite.1 htop)]

theorem classify_eq_zero_iff : L.classify bits = .zero ↔ L.magnitudeBits bits = 0 := by
  rw [classify_eq]
  grind

theorem classify_eq_denormal_iff :
    L.classify bits = .denormal ↔
      0 < L.magnitudeBits bits ∧ L.magnitudeBits bits < L.hiddenBit := by
  rw [classify_eq]
  grind

theorem classify_eq_normal_iff :
    L.classify bits = .normal ↔
      L.hiddenBit ≤ L.magnitudeBits bits ∧ L.magnitudeBits bits < L.infinity := by
  have := L.hiddenBit_pos
  rw [classify_eq]
  grind

theorem classify_eq_infinity_iff :
    L.classify bits = .infinity ↔ L.magnitudeBits bits = L.infinity := by
  have := L.hiddenBit_pos
  have := L.hiddenBit_le_infinity
  rw [classify_eq]
  grind

theorem classify_eq_nan_iff : L.classify bits = .nan ↔ L.infinity < L.magnitudeBits bits := by
  have := L.hiddenBit_pos
  have := L.hiddenBit_le_infinity
  rw [classify_eq]
  grind

/-- The least denormal. -/
theorem fields_one : L.fields 1 = { sign := 0, exponent := 0, mantissa := 1 } :=
  L.fields_natCast_of_lt L.one_lt_hiddenBit

theorem isFinite_one : L.IsFinite 1 := by
  rw [IsFinite, fields_one]
  exact L.exponentMax_pos.ne

theorem abs_value : |L.value bits| = L.magnitudeValue (L.magnitudeBits bits) := by
  rw [value, abs_mul, abs_pow, abs_neg, abs_one, one_pow, one_mul,
    abs_of_nonneg (L.magnitudeValue_nonneg _)]

end Patterns

section Signed

variable {L} {sign magnitude : Nat}

@[simp] theorem signed_zero (magnitude : Nat) : L.signed 0 magnitude = magnitude := by
  rw [signed, Nat.zero_mul, Nat.zero_add]

/-- A magnitude leaves the place of the sign free. -/
theorem signed_eq_or (h : magnitude < L.signMask) :
    L.signed sign magnitude = sign * L.signMask ||| magnitude := by
  rw [signed, Nat.mul_comm, signMask, Nat.two_pow_add_eq_or_of_lt h]

theorem signed_lt (hs : sign < 2) (h : magnitude < L.signMask) :
    L.signed sign magnitude < 2 ^ L.width := by
  have := Nat.mul_le_mul_right L.signMask (Nat.le_of_lt_succ hs)
  rw [two_pow_width, signed]
  omega

theorem fields_signed_magnitude (hs : sign < 2) (h : magnitude < L.signMask) :
    L.fields (L.signed sign magnitude : Nat) =
      { sign, exponent := magnitude / L.hiddenBit, mantissa := magnitude % L.hiddenBit } := by
  have he : magnitude / L.hiddenBit < 2 ^ L.exponentBits := by
    rw [Nat.div_lt_iff_lt_mul L.hiddenBit_pos]
    rwa [signMask_eq] at h
  have hfields := L.fields_signed hs he (Nat.mod_lt magnitude L.hiddenBit_pos)
  rwa [Nat.div_add_mod'] at hfields

theorem magnitudeBits_signed (hs : sign < 2) (h : magnitude < L.signMask) :
    L.magnitudeBits (L.signed sign magnitude : Nat) = magnitude := by
  rw [magnitudeBits_eq, fields_signed_magnitude hs h]
  exact Nat.div_add_mod' _ _

theorem magnitudeBits_natCast (h : magnitude < L.signMask) :
    L.magnitudeBits magnitude = magnitude := by
  simpa using magnitudeBits_signed Nat.two_pos h

theorem value_signed (hs : sign < 2) (h : magnitude < L.signMask) :
    L.value (L.signed sign magnitude : Nat) = (-1) ^ sign * L.magnitudeValue magnitude := by
  rw [value, magnitudeBits_signed hs h, fields_signed_magnitude hs h]

end Signed

end HalfPrecision.Layout
