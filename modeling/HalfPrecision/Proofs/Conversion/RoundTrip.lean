import HalfPrecision.Proofs.Conversion.Narrowing
import HalfPrecision.Proofs.Conversion.Widening
import HalfPrecision.Proofs.Layout.Masks

/-!
# Widening and narrowing back

A pattern that was widened with its value is nearest to itself when it is narrowed again, so it
comes back. Narrowing is therefore a projection. Where widening has no room for the denormals the
least of them comes back as another pattern.
-/

namespace HalfPrecision.Layout

variable {N W T : Layout} {bits : Int}

/-- A finite pattern that was widened with its value is narrowed to the magnitude nearest to it, in
every layout. -/
theorem Extends.exists_narrowPattern_widenPattern_eq (h : W.Extends N) (hT : W.Extends T)
    (hroom : N.bias + N.mantissaBits ≤ W.bias) (hfinite : N.IsFinite bits) :
    ∃ magnitude,
      narrowPattern W T (widenPattern N W bits) = T.signed (N.fields bits).sign magnitude ∧
        T.IsNearestAway (N.magnitudeValue (N.magnitudeBits bits)) magnitude := by
  obtain ⟨magnitude, hlt, hpattern, hvalue, hnormal⟩ := h.exists_widenPattern_eq hroom hfinite
  refine ⟨_, by
    rw [hpattern, narrowPattern_signed (N.sign_lt bits) (hlt.trans W.infinity_lt_signMask)], ?_⟩
  by_cases hzero : N.magnitudeBits bits = 0
  · rw [hzero, magnitudeValue_zero, ← W.magnitudeValue_zero] at hvalue
    rw [W.magnitudeValue_strictMono.injective hvalue, hzero, Nat.zero_div, narrowMagnitude_zero,
      magnitudeValue_zero, ← T.magnitudeValue_zero]
    exact isNearestAway_magnitudeValue (Nat.zero_le _)
  · have he : 0 < magnitude / W.hiddenBit :=
      Nat.div_pos (hnormal hzero) W.hiddenBit_pos
    have hmax : magnitude / W.hiddenBit ≠ W.exponentMax := by
      rw [infinity_eq] at hlt
      exact ((Nat.div_lt_iff_lt_mul W.hiddenBit_pos).2 hlt).ne
    have hnear := isNearestAway_narrowMagnitude he hmax hT (Nat.mod_lt magnitude W.hiddenBit_pos)
    rwa [Nat.div_add_mod', hvalue] at hnear

/-- A finite pattern that was widened with its value is narrowed to its magnitude. -/
theorem Extends.narrowPattern_widenPattern_of_isFinite (h : W.Extends N)
    (hroom : N.bias + N.mantissaBits ≤ W.bias) (hfinite : N.IsFinite bits) :
    narrowPattern W N (widenPattern N W bits) = N.wrap bits := by
  obtain ⟨magnitude, hpattern, hnear⟩ := h.exists_narrowPattern_widenPattern_eq h hroom hfinite
  have hself := isNearestAway_magnitudeValue ((N.isFinite_iff bits).1 hfinite).le
  rw [hpattern, hnear.unique hself, wrap_eq_signed]

theorem Extends.narrowPattern_widenPattern_of_infinity (h : W.Extends N)
    (he : (N.fields bits).exponent = N.exponentMax) (hm : (N.fields bits).mantissa = 0) :
    narrowPattern W T (widenPattern N W bits) = T.signed (N.fields bits).sign T.infinity := by
  rw [h.widenPattern_of_infinity he hm,
    narrowPattern_signed (N.sign_lt bits) W.infinity_lt_signMask, infinity_eq,
    Nat.mul_div_cancel _ W.hiddenBit_pos, Nat.mul_mod_left, narrowMagnitude_infinity]

theorem narrowPattern_widenPattern_of_isNaN (hnan : N.IsNaN bits) :
    narrowPattern W T (widenPattern N W bits) = T.signed (N.fields bits).sign T.quietNan := by
  rw [widenPattern_of_isNaN hnan, narrowPattern_signed (N.sign_lt bits) W.quietNan_lt_signMask,
    quietNan_div_hiddenBit, quietNan_mod_hiddenBit, narrowMagnitude_nan (Nat.two_pow_pos _).ne']

/-- A pattern that is not a NaN comes back, and a NaN comes back as the quiet one. -/
theorem Extends.narrowPattern_widenPattern (h : W.Extends N)
    (hroom : N.bias + N.mantissaBits ≤ W.bias) (bits : Int) :
    narrowPattern W N (widenPattern N W bits) =
      if N.IsNaN bits then N.signed (N.fields bits).sign N.quietNan else N.wrap bits := by
  split
  next hnan => exact narrowPattern_widenPattern_of_isNaN hnan
  next hnan =>
    by_cases hfinite : N.IsFinite bits
    · exact h.narrowPattern_widenPattern_of_isFinite hroom hfinite
    · have htop : (N.fields bits).exponent = N.exponentMax := not_not.1 hfinite
      have hzero : (N.fields bits).mantissa = 0 := not_not.1 fun hm => hnan ⟨htop, hm⟩
      rw [h.narrowPattern_widenPattern_of_infinity htop hzero, wrap_eq_signed, magnitudeBits_eq,
        htop, hzero, infinity_eq, Nat.add_zero]

theorem Extends.narrowPattern_widenPattern_narrowPattern (h : W.Extends N)
    (hroom : N.bias + N.mantissaBits ≤ W.bias) (bits : Int) :
    narrowPattern W N (widenPattern N W (narrowPattern W N bits)) = narrowPattern W N bits := by
  have hsign := W.sign_lt bits
  have hmag : narrowMagnitude W N (W.fields bits).exponent (W.fields bits).mantissa < N.signMask :=
    narrowMagnitude_lt_signMask h (W.mantissa_lt bits)
  rw [h.narrowPattern_widenPattern hroom]
  split
  next hnan =>
    rw [isNaN_iff, narrowPattern, magnitudeBits_signed hsign hmag] at hnan
    rw [narrowPattern, fields_signed_magnitude hsign hmag]
    rcases narrowMagnitude_le_infinity h (W.mantissa_lt bits) with hle | heq
    · exact absurd hnan hle.not_gt
    · rw [heq]
  next => exact N.wrap_of_lt (signed_lt hsign hmag)

/-- A multiple of the hidden bit has no mantissa. -/
theorem mantissa_mul_hiddenBit (L : Layout) (n : Int) :
    (L.fields (n * L.hiddenBit)).mantissa = 0 := by
  obtain ⟨-, -, hmantissa⟩ := L.fields_eq_shifted (n * L.hiddenBit)
  rw [← hiddenBit, Int.mul_emod_left] at hmantissa
  exact Int.natCast_eq_zero.1 hmantissa

/-- A power of two of `W` that is too large for the least denormal of `N` is not narrowed to it. -/
theorem narrowMagnitude_ne_one (h : W.Extends N) (hroom : W.bias < N.bias + N.mantissaBits)
    (exponent : Nat) : narrowMagnitude W N exponent 0 ≠ 1 := by
  rcases Nat.eq_zero_or_pos exponent with rfl | he
  · rw [narrowMagnitude_zero]
    exact zero_ne_one
  by_cases hmax : exponent = W.exponentMax
  · have hone := N.one_lt_hiddenBit.trans_le N.hiddenBit_le_infinity
    rw [hmax, narrowMagnitude_infinity]
    exact hone.ne'
  · have hnear := isNearestAway_narrowMagnitude he hmax h W.hiddenBit_pos
    have htwo : N.magnitudeValue 2 = 2 ^ (1 - N.bias - N.mantissaBits + 1 : Int) := by
      have hvalue := N.magnitudeValue_add 0 N.one_lt_hiddenBit
      rw [Nat.zero_mul, Nat.zero_add, magnitudeValue_zero, zero_add, spacing, unit] at hvalue
      rw [hvalue, zpow_add_one₀ two_ne_zero]
      simp [mul_comm]
    have hle : N.magnitudeValue 2 ≤ W.magnitudeValue (exponent * W.hiddenBit + 0) := by
      rw [htwo, W.magnitudeValue_mul_add he W.hiddenBit_pos, Nat.add_zero, hiddenBit, Nat.cast_pow,
        Nat.cast_ofNat, ← zpow_natCast, ← zpow_add₀ two_ne_zero]
      exact zpow_le_zpow_right₀ one_le_two (by omega)
    have hinf := N.one_lt_hiddenBit.trans_le N.hiddenBit_le_infinity
    have := (isNearestAway_magnitudeValue hinf).mono hnear hle
    omega

/-- Without room below the exponents of `N` the least denormal comes back as another pattern. -/
theorem Extends.narrowPattern_widenPattern_one_ne (h : W.Extends N)
    (hroom : W.bias < N.bias + N.mantissaBits) :
    narrowPattern W N (widenPattern N W 1) ≠ N.wrap 1 := by
  have hone : N.wrap 1 = 1 := by
    rw [wrap_eq, fields_one, Nat.zero_mul, Nat.zero_mul, Nat.zero_add, Nat.zero_add]
  have hne := narrowMagnitude_ne_one h hroom (W.fields (widenPattern N W 1)).exponent
  have hmask : 1 < N.signMask :=
    N.one_lt_hiddenBit.trans_le (N.hiddenBit_le_infinity.trans N.infinity_lt_signMask.le)
  rw [widenPattern_one, narrowPattern, mantissa_mul_hiddenBit, ← widenPattern_one, hone, signed]
  rcases Nat.eq_zero_or_pos (W.fields (widenPattern N W 1)).sign with hsign | hsign
  · rw [hsign, Nat.zero_mul, Nat.zero_add]
    exact hne
  · have := Nat.le_mul_of_pos_left N.signMask hsign
    omega

/-- Narrowing undoes widening for the layouts with room below the exponents of `N`, up to the
payloads of NaNs, and for no others. There it changes nothing that it has made itself. -/
theorem narrow_widen_iff_room {N W : Layout} (h : W.Extends N) :
    (N.bias + N.mantissaBits ≤ W.bias →
      (∀ bits, ¬ N.IsNaN bits → (widen N W bits).bind (narrow W N) = .ok (N.wrap bits)) ∧
      (∀ bits, N.IsNaN bits → (widen N W bits).bind (narrow W N) =
        .ok ((N.fields bits).sign * 2 ^ (N.width - 1) ||| N.quietNan)) ∧
      ∀ bits, ((narrow W N bits).bind fun narrowed => (widen N W narrowed).bind (narrow W N)) =
        narrow W N bits) ∧
    (W.bias < N.bias + N.mantissaBits →
      ∃ bits back, N.IsFinite bits ∧ (widen N W bits).bind (narrow W N) = .ok back ∧
        back ≠ N.wrap bits) := by
  have hback : ∀ bits, (widen N W bits).bind (narrow W N) =
      .ok (narrowPattern W N (widenPattern N W bits)) := by
    intro bits
    rw [widen_eq_ok h, Except.bind, narrow_eq_ok h]
  constructor
  · intro hroom
    refine ⟨?_, ?_, ?_⟩
    · intro bits hnan
      rw [hback, h.narrowPattern_widenPattern hroom, if_neg hnan]
    · intro bits hnan
      rw [hback, h.narrowPattern_widenPattern hroom, if_pos hnan]
      exact congrArg _ (signed_eq_or N.quietNan_lt_signMask)
    · intro bits
      rw [narrow_eq_ok h, Except.bind, hback, h.narrowPattern_widenPattern_narrowPattern hroom]
  · intro hroom
    exact ⟨1, _, N.isFinite_one, hback 1, h.narrowPattern_widenPattern_one_ne hroom⟩

/-- A half comes back from the doubles, here the least denormal and a NaN with a payload. -/
theorem narrow_widen_half_double :
    double.Extends half ∧ half.bias + half.mantissaBits ≤ double.bias ∧
      ¬ half.IsNaN 0x8001 ∧ half.IsNaN 0xFD55 ∧
        (widen half double 0x8001).bind (narrow double half) = .ok 0x8001 ∧
          (widen half double 0xFD55).bind (narrow double half) = .ok 0xFE00 :=
  have hroom : half.bias + half.mantissaBits ≤ double.bias := by decide
  have hback := (narrow_widen_iff_room half_extends_double).1 hroom
  ⟨by decide, hroom, by decide, by decide, hback.1 0x8001 (by decide), hback.2.1 0xFD55 (by decide)⟩

-- With the exponents of halves and one more bit the least denormal comes back as -256.
example :
    (widen half { name := "longer half", exponentBits := 5, mantissaBits := 11 } 1).bind
        (narrow { name := "longer half", exponentBits := 5, mantissaBits := 11 } half) =
      .ok 0xDC00 := by
  decide

end HalfPrecision.Layout
