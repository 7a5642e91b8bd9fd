import HalfPrecision.Proofs.Conversion.Narrowing

/-!
# Flushing denormals

Narrowing gives a zero for every denormal and does not look at its mantissa. A zero is nearest to
what lies below half the least denormal of the narrower layout, so this is rounding where all
denormals of the wider layout lie there. Where the biases are too close for that, the greatest power
of two among the denormals is flushed although another number is as near as zero.
-/

namespace HalfPrecision.Layout

section Zero

variable (L : Layout)

theorem magnitudeValue_one : L.magnitudeValue 1 = L.unit := by
  rw [magnitudeValue, L.units_of_lt L.one_lt_hiddenBit, Nat.cast_one, one_mul]

theorem midpoint_zero : L.midpoint 0 = 2 ^ (-L.bias - L.mantissaBits : Int) := by
  have hunit : L.unit = 2 ^ (-L.bias - L.mantissaBits : Int) * 2 := by
    rw [unit, ← zpow_add_one₀ two_ne_zero]
    congr 1
    omega
  rw [midpoint, magnitudeValue_zero, zero_add, magnitudeValue_one, hunit]
  exact mul_div_cancel_right₀ _ two_ne_zero

/-- What is nearest to zero lies below half the least denormal. -/
theorem isNearestAway_zero_iff (v : Rat) : L.IsNearestAway v 0 ↔ v < L.midpoint 0 := by
  rw [isNearestAway_iff]
  constructor
  · rintro ⟨_, _, hbelow⟩
    exact hbelow (L.hiddenBit_pos.trans_le L.hiddenBit_le_infinity)
  · intro hbelow
    exact ⟨Nat.zero_le _, fun lower hlower => absurd hlower (Nat.not_lt_zero lower),
      fun _ => hbelow⟩

/-- The greatest power of two among the denormals. -/
theorem magnitudeValue_quietMantissa :
    L.magnitudeValue (2 ^ (L.mantissaBits - 1)) = 2 ^ (-L.bias : Int) := by
  rw [magnitudeValue, L.units_of_lt L.quietMantissa_lt, unit, Nat.cast_pow, Nat.cast_ofNat,
    ← zpow_natCast, ← zpow_add₀ two_ne_zero]
  have := L.mantissaBits_pos
  congr 1
  omega

end Zero

variable {S T : Layout} {bits : Int}

theorem abs_value_of_exponent_eq_zero (he : (S.fields bits).exponent = 0) :
    |S.value bits| = S.magnitudeValue (S.fields bits).mantissa := by
  rw [abs_value, magnitudeBits_eq, he, Nat.zero_mul, Nat.zero_add]

theorem narrowPattern_of_exponent_eq_zero (he : (S.fields bits).exponent = 0) :
    narrowPattern S T bits = (S.fields bits).sign * 2 ^ (T.width - 1) := by
  rw [narrowPattern, he, narrowMagnitude_zero]
  rfl

/-- Where the biases are far enough apart, zero is nearest to every denormal. -/
theorem isNearestAway_zero_of_far (hfar : T.bias + T.mantissaBits + 1 ≤ S.bias)
    (he : (S.fields bits).exponent = 0) : T.IsNearestAway |S.value bits| 0 := by
  rw [isNearestAway_zero_iff, midpoint_zero, abs_value_of_exponent_eq_zero he]
  calc S.magnitudeValue (S.fields bits).mantissa
      < S.magnitudeValue S.hiddenBit := S.magnitudeValue_strictMono (S.mantissa_lt bits)
    _ = 2 ^ (1 - S.bias : Int) := S.magnitudeValue_hiddenBit
    _ ≤ 2 ^ (-T.bias - T.mantissaBits : Int) :=
        zpow_le_zpow_right₀ one_le_two (by omega)

/-- Where they are not, a denormal reaches half the least denormal of `T`. -/
theorem exists_not_isNearestAway_zero (hnear : S.bias < T.bias + T.mantissaBits + 1) :
    ∃ bits, (S.fields bits).exponent = 0 ∧ ¬ T.IsNearestAway |S.value bits| 0 := by
  have hfields := S.fields_natCast_of_lt S.quietMantissa_lt
  have he : (S.fields (2 ^ (S.mantissaBits - 1) : Nat)).exponent = 0 := by rw [hfields]
  refine ⟨(2 ^ (S.mantissaBits - 1) : Nat), he, ?_⟩
  rw [isNearestAway_zero_iff, midpoint_zero, abs_value_of_exponent_eq_zero he, hfields,
    magnitudeValue_quietMantissa, not_lt]
  exact zpow_le_zpow_right₀ one_le_two (by omega)

/-- Where the biases are far enough apart, the magnitude of every finite pattern is rounded. -/
theorem isNearestAway_narrowMagnitude_of_far (h : S.Extends T)
    (hfar : T.bias + T.mantissaBits + 1 ≤ S.bias) (hfinite : S.IsFinite bits) :
    T.IsNearestAway |S.value bits|
      (narrowMagnitude S T (S.fields bits).exponent (S.fields bits).mantissa) := by
  by_cases he : (S.fields bits).exponent = 0
  · rw [he, narrowMagnitude_zero]
    exact isNearestAway_zero_of_far hfar he
  · rw [abs_value, magnitudeBits_eq]
    exact isNearestAway_narrowMagnitude (Nat.pos_of_ne_zero he) hfinite h (S.mantissa_lt bits)

/-- Whether narrowing gives the sign of a pattern above the magnitude nearest to its value. -/
def NarrowsToNearest (S T : Layout) (bits : Int) : Prop :=
  ∃ magnitude, narrow S T bits = .ok ((S.fields bits).sign * 2 ^ (T.width - 1) ||| magnitude) ∧
    T.IsNearestAway |S.value bits| magnitude

theorem Extends.narrowsToNearest (h : S.Extends T)
    (hfar : T.bias + T.mantissaBits + 1 ≤ S.bias) (hfinite : S.IsFinite bits) :
    NarrowsToNearest S T bits := by
  have hnear := isNearestAway_narrowMagnitude_of_far h hfar hfinite
  refine ⟨_, ?_, hnear⟩
  rw [narrow_eq_ok h, narrowPattern]
  exact congrArg _ (signed_eq_or (hnear.1.trans_lt T.infinity_lt_signMask))

/-- Denormals are narrowed to zeros, which are nearest to all of them for the layouts whose biases
are far enough apart, and for no others. There every finite pattern is rounded to nearest, and so it
is from doubles and singles to halves and from doubles to singles. -/
theorem flush_isNearestAway_iff :
    (∀ {S T : Layout}, S.Extends T →
      (∀ bits, (S.fields bits).exponent = 0 →
        narrow S T bits = .ok ((S.fields bits).sign * 2 ^ (T.width - 1))) ∧
      ((∀ bits, (S.fields bits).exponent = 0 → T.IsNearestAway |S.value bits| 0) ↔
        T.bias + T.mantissaBits + 1 ≤ S.bias) ∧
      (T.bias + T.mantissaBits + 1 ≤ S.bias →
        ∀ bits, S.IsFinite bits → NarrowsToNearest S T bits)) ∧
    (∀ bits, single.IsFinite bits → NarrowsToNearest single half bits) ∧
    (∀ bits, double.IsFinite bits → NarrowsToNearest double half bits) ∧
    ∀ bits, double.IsFinite bits → NarrowsToNearest double single bits := by
  refine ⟨?_, ?_, ?_, ?_⟩
  · intro S T h
    refine ⟨?_, ⟨?_, ?_⟩, ?_⟩
    · intro bits he
      rw [narrow_eq_ok h, narrowPattern_of_exponent_eq_zero he]
    · intro hflush
      by_contra hnear
      obtain ⟨bits, he, hne⟩ := exists_not_isNearestAway_zero (not_le.1 hnear)
      exact hne (hflush bits he)
    · intro hfar bits he
      exact isNearestAway_zero_of_far hfar he
    · intro hfar bits hfinite
      exact h.narrowsToNearest hfar hfinite
  · intro bits hfinite
    exact half_extends_single.narrowsToNearest (by decide) hfinite
  · intro bits hfinite
    exact half_extends_double.narrowsToNearest (by decide) hfinite
  · intro bits hfinite
    exact single_extends_double.narrowsToNearest (by decide) hfinite

/-- A single denormal is rounded to zero. With the exponents of halves and one more bit a denormal
is flushed that is not nearest to zero. -/
theorem flush_isNearestAway_iff_single_longer_half :
    let longer : Layout := { name := "longer half", exponentBits := 5, mantissaBits := 11 }
    (single.Extends half ∧ half.bias + half.mantissaBits + 1 ≤ single.bias ∧
      (single.fields 0x807FFFFF).exponent = 0 ∧ narrow single half 0x807FFFFF = .ok 0x8000 ∧
        half.IsNearestAway |single.value 0x807FFFFF| 0) ∧
    longer.Extends half ∧ longer.bias < half.bias + half.mantissaBits + 1 ∧
      ¬ ∀ bits, (longer.fields bits).exponent = 0 → half.IsNearestAway |longer.value bits| 0 := by
  intro longer
  have hsingle : single.Extends half := by decide
  have hfar : half.bias + half.mantissaBits + 1 ≤ single.bias := by decide
  have he : (single.fields 0x807FFFFF).exponent = 0 := by decide
  obtain ⟨hflush, hiff, _⟩ := flush_isNearestAway_iff.1 hsingle
  have hlonger : longer.Extends half := by decide
  have hnear : longer.bias < half.bias + half.mantissaBits + 1 := by decide
  refine ⟨⟨hsingle, hfar, he, ?_, hiff.2 hfar _ he⟩, hlonger, hnear, ?_⟩
  · exact (hflush _ he).trans (by decide)
  · exact fun h => hnear.not_ge ((flush_isNearestAway_iff.1 hlonger).2.1.1 h)

end HalfPrecision.Layout
