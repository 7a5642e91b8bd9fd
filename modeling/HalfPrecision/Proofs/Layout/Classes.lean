import HalfPrecision.Proofs.Layout.Masks
import HalfPrecision.Proofs.Layout.Order

/-!
# Classes and values

The class of a pattern is read off its fields, but it is a matter of the magnitude alone: zero, the
denormals, the normal numbers, infinity and the NaNs are five intervals, one above the other. The
magnitudes of finite patterns are ordered as what their fields stand for, so the denormals are the
numbers between zero and the least normal number, and the normal numbers reach from there to the
power of two that would follow the greatest one. With a single exponent bit these bounds are equal,
and there are no normal numbers.
-/

namespace HalfPrecision.Layout

variable (L : Layout)

/-- There is room for normal numbers below infinity unless the exponent has a single bit. -/
theorem hiddenBit_lt_infinity_iff : L.hiddenBit < L.infinity ↔ 1 < L.exponentBits := by
  have hexponent : 1 < L.exponentMax ↔ 1 < L.exponentBits :=
    calc 1 < L.exponentMax
      _ ↔ 2 ^ 1 < 2 ^ L.exponentBits := Nat.lt_sub_iff_add_lt
      _ ↔ 1 < L.exponentBits := Nat.pow_lt_pow_iff_right Nat.one_lt_two
  rw [← hexponent, infinity_eq, Nat.lt_mul_iff_one_lt_left L.hiddenBit_pos]

/-- There are normal numbers unless the exponent has a single bit. -/
theorem exists_classify_eq_normal_iff :
    (∃ bits, L.classify bits = .normal) ↔ 1 < L.exponentBits := by
  rw [← hiddenBit_lt_infinity_iff]
  constructor
  · rintro ⟨bits, hnormal⟩
    obtain ⟨hlow, hhigh⟩ := (L.classify_eq_normal_iff bits).1 hnormal
    exact hlow.trans_lt hhigh
  · intro hlt
    refine ⟨L.hiddenBit, (L.classify_eq_normal_iff _).2 ?_⟩
    rw [magnitudeBits_natCast (hlt.trans L.infinity_lt_signMask)]
    exact ⟨le_rfl, hlt⟩

section Values

variable {L} {bits : Int}

/-- The denormals are the numbers between zero and the least normal number. -/
theorem classify_eq_denormal_iff_abs_value :
    L.classify bits = .denormal ↔
      0 < |L.value bits| ∧ |L.value bits| < 2 ^ (1 - L.bias : Int) := by
  rw [classify_eq_denormal_iff, abs_value, ← magnitudeValue_hiddenBit, ← L.magnitudeValue_zero,
    L.magnitudeValue_strictMono.lt_iff_lt, L.magnitudeValue_strictMono.lt_iff_lt]

/-- The normal numbers reach from the least one to the power of two that counts as infinity. -/
theorem classify_eq_normal_iff_abs_value :
    L.classify bits = .normal ↔
      2 ^ (1 - L.bias : Int) ≤ |L.value bits| ∧
        |L.value bits| < 2 ^ (L.exponentMax - L.bias : Int) := by
  rw [classify_eq_normal_iff, abs_value, ← magnitudeValue_hiddenBit, ← magnitudeValue_infinity,
    L.magnitudeValue_strictMono.le_iff_le, L.magnitudeValue_strictMono.lt_iff_lt]

end Values

/-- The classes cut the order of the magnitudes into five intervals, of which that of the normal
numbers may be empty. On the finite patterns this is the order of what their fields stand for, apart
from the sign, and the denormals and the normal numbers are intervals of values. Where the mantissa
has a place in memory, no pattern is without a class. -/
theorem classes_match_values :
    (∀ bits : Int, (L.magnitudeBits bits : Int) = bits % (2 ^ (L.width - 1) : Nat)) ∧
    (∀ bits : Int,
      (L.classify bits = .zero ↔ L.magnitudeBits bits = 0) ∧
      (L.classify bits = .denormal ↔
        0 < L.magnitudeBits bits ∧ L.magnitudeBits bits < L.hiddenBit) ∧
      (L.classify bits = .normal ↔
        L.hiddenBit ≤ L.magnitudeBits bits ∧ L.magnitudeBits bits < L.infinity) ∧
      (L.classify bits = .infinity ↔ L.magnitudeBits bits = L.infinity) ∧
      (L.classify bits = .nan ↔ L.infinity < L.magnitudeBits bits)) ∧
    ((∃ bits, L.classify bits = .normal) ↔ 1 < L.exponentBits) ∧
    (∀ p q : Int, L.IsFinite p → L.IsFinite q →
      (L.magnitudeBits p < L.magnitudeBits q ↔
        |L.fieldsValue (L.fields p)| < |L.fieldsValue (L.fields q)|) ∧
      ((L.fields p).sign = 0 → (L.fields q).sign = 0 →
        (L.magnitudeBits p < L.magnitudeBits q ↔
          L.fieldsValue (L.fields p) < L.fieldsValue (L.fields q))) ∧
      ((L.fields p).sign = 1 → (L.fields q).sign = 1 →
        (L.magnitudeBits p < L.magnitudeBits q ↔
          L.fieldsValue (L.fields q) < L.fieldsValue (L.fields p)))) ∧
    (∀ bits : Int, L.IsFinite bits →
      (L.classify bits = .denormal ↔
        0 < |L.fieldsValue (L.fields bits)| ∧
          |L.fieldsValue (L.fields bits)| < 2 ^ (1 - L.bias : Int)) ∧
      (L.classify bits = .normal ↔
        2 ^ (1 - L.bias : Int) ≤ |L.fieldsValue (L.fields bits)| ∧
          |L.fieldsValue (L.fields bits)| < 2 ^ (L.exponentMax - L.bias : Int))) ∧
    (∀ capacity : Capacity, L.mantissaBits ≤ capacity.memoryBits →
      ∀ bits : Int, L.classifyWithin capacity bits = .ok (L.classify bits)) := by
  simp only [← value_eq_fieldsValue]
  refine ⟨L.magnitudeBits_cast, ?_, L.exists_classify_eq_normal_iff, ?_, ?_,
    fun _ => L.classifyWithin_eq_ok⟩
  · intro bits
    exact ⟨L.classify_eq_zero_iff bits, L.classify_eq_denormal_iff bits,
      L.classify_eq_normal_iff bits, L.classify_eq_infinity_iff bits, L.classify_eq_nan_iff bits⟩
  · -- Values are counted on beyond the greatest finite number, so the order holds there too.
    intro p q _ _
    refine ⟨abs_value_lt_abs_value_iff.symm, ?_, ?_⟩
    · intro hp hq
      exact (value_lt_value_iff_of_sign_eq_zero hp hq).symm
    · intro hp hq
      exact (value_lt_value_iff_of_sign_ne_zero (by omega) (by omega)).symm
  · intro bits _
    exact ⟨classify_eq_denormal_iff_abs_value, classify_eq_normal_iff_abs_value⟩

/-- The greatest denormal of the halves and the least normal number, without a sign and with it; the
denormal with a sign is written as a negative integer. -/
theorem classes_match_values_half :
    half.classify 0x3FF = .denormal ∧ half.classify 0x400 = .normal ∧
      (half.IsFinite 0x3FF ∧ half.IsFinite 0x400 ∧
        (half.fields 0x3FF).sign = 0 ∧ (half.fields 0x400).sign = 0 ∧
          half.fieldsValue (half.fields 0x3FF) < half.fieldsValue (half.fields 0x400)) ∧
      (half.IsFinite (-0x7C01) ∧ half.IsFinite 0x8400 ∧
        (half.fields (-0x7C01)).sign = 1 ∧ (half.fields 0x8400).sign = 1 ∧
          half.fieldsValue (half.fields 0x8400) < half.fieldsValue (half.fields (-0x7C01))) ∧
      |half.fieldsValue (half.fields (-0x7C01))| < 2 ^ (-14 : Int) ∧
      2 ^ (-14 : Int) ≤ |half.fieldsValue (half.fields 0x8400)| ∧
      half.mantissaBits ≤ Capacity.workstation.memoryBits ∧
        half.classifyWithin .workstation (-0x7C01) = .ok .denormal := by
  obtain ⟨-, hclass, -, horder, hvalue, hwithin⟩ := classes_match_values half
  have hlow : half.IsFinite 0x3FF := by decide
  have hhigh : half.IsFinite 0x400 := by decide
  have hlow' : half.IsFinite (-0x7C01) := by decide
  have hhigh' : half.IsFinite 0x8400 := by decide
  have hdenormal : half.classify (-0x7C01) = .denormal := by decide
  have hnormal : half.classify 0x8400 = .normal := by decide
  have hmemory : half.mantissaBits ≤ Capacity.workstation.memoryBits := by decide
  refine ⟨?_, ?_, ⟨hlow, hhigh, by decide, by decide, ?_⟩,
    ⟨hlow', hhigh', by decide, by decide, ?_⟩, ?_, ?_, hmemory, ?_⟩
  · exact (hclass 0x3FF).2.1.2 (by decide)
  · exact (hclass 0x400).2.2.1.2 (by decide)
  · exact ((horder _ _ hlow hhigh).2.1 (by decide) (by decide)).1 (by decide)
  · exact ((horder _ _ hlow' hhigh').2.2 (by decide) (by decide)).1 (by decide)
  · exact ((hvalue _ hlow').1.1 hdenormal).2
  · exact ((hvalue _ hhigh').2.1 hnormal).1
  · rw [hwithin .workstation hmemory, hdenormal]

end HalfPrecision.Layout
