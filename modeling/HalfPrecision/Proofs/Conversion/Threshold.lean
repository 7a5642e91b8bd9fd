import HalfPrecision.Proofs.Capacity
import HalfPrecision.Proofs.Conversion.Flushing
import HalfPrecision.Proofs.Conversion.Magnitude

/-!
# Where narrowing changes the class

A number goes to infinity from the midpoint between the greatest finite number of the narrower
layout and the next power of two on, and to zero below half the least denormal. The sign and the
NaNs are kept, so no carry leaves the magnitude and none goes beyond infinity. Nothing but a word of
the wider layout for which there is no memory keeps a pattern from being narrowed.
-/

namespace HalfPrecision.Layout

section Infinity

variable (L : Layout)

/-- The last midpoint lies below the power of two that would follow the greatest finite number. -/
theorem midpoint_pred_infinity :
    L.midpoint (L.infinity - 1) =
      (L.magnitudeValue (L.infinity - 1) + 2 ^ (L.exponentMax - L.bias : Int)) / 2 := by
  rw [midpoint, Nat.sub_add_cancel L.infinity_pos, magnitudeValue_infinity]

/-- What is nearest to infinity lies from the last midpoint on. -/
theorem isNearestAway_infinity_iff (v : Rat) :
    L.IsNearestAway v L.infinity ↔ L.midpoint (L.infinity - 1) ≤ v := by
  rw [isNearestAway_iff]
  constructor
  · rintro ⟨_, hbelow, _⟩
    exact hbelow _ (Nat.sub_lt L.infinity_pos Nat.one_pos)
  · intro hle
    refine ⟨le_rfl, ?_, fun hlt => absurd hlt (Nat.lt_irrefl _)⟩
    intro lower hlower
    exact (L.midpoint_strictMono.monotone (Nat.le_sub_one_of_lt hlower)).trans hle

end Infinity

section Narrowed

variable {S T : Layout} (h : S.Extends T)

include h

/-- A magnitude that is rounded goes where the number it stands for is nearest to. -/
theorem narrowed_eq_iff {magnitude : Nat} (hlow : S.hiddenBit ≤ magnitude)
    (hhigh : magnitude < S.infinity) (nearest : Nat) :
    narrowed S T magnitude = nearest ↔
      T.IsNearestAway (S.magnitudeValue magnitude) nearest := by
  have hnear := isNearestAway_narrowed h hlow hhigh
  constructor
  · rintro rfl
    exact hnear
  · exact hnear.unique

theorem narrowed_eq_infinity_iff {magnitude : Nat} (hlt : magnitude < S.signMask) :
    narrowed S T magnitude = T.infinity ↔
      magnitude = S.infinity ∨ (S.hiddenBit ≤ magnitude ∧ magnitude < S.infinity) ∧
        T.midpoint (T.infinity - 1) ≤ S.magnitudeValue magnitude := by
  rcases Nat.lt_trichotomy magnitude S.infinity with hhigh | rfl | hnan
  · rcases Nat.lt_or_ge magnitude S.hiddenBit with hlow | hlow
    · rw [narrowed_of_lt_hiddenBit hlow]
      simp [hhigh.ne, hlow.not_ge, T.infinity_pos.ne]
    · rw [narrowed_eq_iff h hlow hhigh, isNearestAway_infinity_iff]
      simp [hhigh.ne, hlow, hhigh]
  · simp
  · rw [narrowed_of_infinity_lt hnan hlt]
    simp [hnan.ne', hnan.not_gt, T.infinity_lt_quietNan.ne']

theorem narrowed_eq_zero_iff {magnitude : Nat} (hlt : magnitude < S.signMask) :
    narrowed S T magnitude = 0 ↔
      magnitude < S.hiddenBit ∨
        magnitude < S.infinity ∧ S.magnitudeValue magnitude < T.midpoint 0 := by
  rcases Nat.lt_or_ge magnitude S.hiddenBit with hlow | hlow
  · simp [narrowed_of_lt_hiddenBit hlow, hlow]
  rcases Nat.lt_trichotomy magnitude S.infinity with hhigh | rfl | hnan
  · rw [narrowed_eq_iff h hlow hhigh, isNearestAway_zero_iff]
    simp [hlow.not_gt, hhigh]
  · simp [hlow.not_gt, T.infinity_pos.ne']
  · rw [narrowed_of_infinity_lt hnan hlt]
    simp [hlow.not_gt, hnan.not_gt, (T.infinity_pos.trans T.infinity_lt_quietNan).ne']

end Narrowed

/-- Narrowing gives a word with the sign of the source. It is a NaN for the NaNs, and then the quiet
one; an infinity for the infinities and for the numbers from the last midpoint on; and a zero for
zeros, denormals and the numbers below half the least denormal. The word is found where the words of
the wider layout have a place in memory, and there only. -/
theorem narrow_classified {S T : Layout} (h : S.Extends T) (bits : Int) :
    ∃ word : Nat, narrow S T bits = .ok word ∧
      (∀ capacity : Capacity,
        (S.width ≤ capacity.memoryBits → narrowWithin capacity S T bits = .ok word) ∧
        (capacity.memoryBits < S.width →
          ∃ cause, narrowWithin capacity S T bits = .error (.beyondCapacity cause))) ∧
      word < 2 ^ T.width ∧ (T.fields word).sign = (S.fields bits).sign ∧
      (T.classify word = .nan ↔ S.classify bits = .nan) ∧
      (S.classify bits = .nan →
        word = (S.fields bits).sign * 2 ^ (T.width - 1) ||| T.quietNan) ∧
      (T.classify word = .infinity ↔
        S.classify bits = .infinity ∨ S.classify bits = .normal ∧
          (T.magnitudeValue (T.infinity - 1) + 2 ^ (T.exponentMax - T.bias : Int)) / 2 ≤
            |S.value bits|) ∧
      (T.classify word = .zero ↔
        (S.fields bits).exponent = 0 ∨
          S.IsFinite bits ∧ |S.value bits| < 2 ^ (-T.bias - T.mantissaBits : Int)) := by
  have hlt := S.magnitudeBits_lt bits
  refine ⟨_, narrow_eq_ok h bits, ?_, narrowPattern_lt h bits, sign_narrowPattern h bits,
    ?_, ?_, ?_, ?_⟩
  · intro capacity
    exact ⟨fun hmemory => narrowWithin_eq_ok h hmemory bits,
      fun hmemory => exists_narrowWithin_eq_error h hmemory bits⟩
  · rw [classify_eq_nan_iff, classify_eq_nan_iff, ← isNaN_iff, ← isNaN_iff,
      isNaN_narrowPattern_iff h]
  · intro hnan
    rw [classify_eq_nan_iff] at hnan
    rw [narrowPattern_eq_signed, narrowed_of_infinity_lt hnan hlt]
    exact signed_eq_or T.quietNan_lt_signMask
  · rw [classify_eq_infinity_iff, magnitudeBits_narrowPattern h, narrowed_eq_infinity_iff h hlt,
      classify_eq_infinity_iff, classify_eq_normal_iff, abs_value, midpoint_pred_infinity]
  · rw [classify_eq_zero_iff, magnitudeBits_narrowPattern h, narrowed_eq_zero_iff h hlt,
      exponent_eq_zero_iff, isFinite_iff, abs_value, midpoint_zero]

/-- With a single exponent bit and a single mantissa bit the least denormal is one, and halves go to
infinity from one and a half on. -/
theorem narrow_classified_single_bits :
    let least : Layout := { name := "least", exponentBits := 1, mantissaBits := 1 }
    half.Extends least ∧ narrow half least 0xBE00 = .ok 6 ∧ least.classify 6 = .infinity ∧
      (least.magnitudeValue (least.infinity - 1) + 2 ^ (least.exponentMax - least.bias : Int)) / 2 ≤
        |half.value 0xBE00| ∧
      (half.width ≤ Capacity.workstation.memoryBits ∧
        narrowWithin .workstation half least 0xBE00 = .ok 6) ∧
      narrow half least 0xB7FF = .ok 4 ∧ least.classify 4 = .zero ∧
        |half.value 0xB7FF| < 2 ^ (-least.bias - least.mantissaBits : Int) := by
  intro least
  have hextends : half.Extends least := by decide
  have hhigh : narrow half least 0xBE00 = .ok 6 := by decide
  have hlow : narrow half least 0xB7FF = .ok 4 := by decide
  have hinfinity : least.classify 6 = .infinity := by decide
  have hzero : least.classify 4 = .zero := by decide
  have hmemory : half.width ≤ Capacity.workstation.memoryBits := by decide
  obtain ⟨word, hnarrow, hwithin, _, _, _, _, hiff, _⟩ := narrow_classified hextends 0xBE00
  obtain rfl : word = 6 := by simpa [hhigh] using hnarrow.symm
  refine ⟨hextends, hhigh, hinfinity, ?_,
    ⟨hmemory, (hwithin .workstation).1 hmemory⟩, hlow, hzero, ?_⟩
  · exact (hiff.1 hinfinity).resolve_left (by decide) |>.2
  · obtain ⟨word, hnarrow, _, _, _, _, _, _, hiff⟩ := narrow_classified hextends 0xB7FF
    obtain rfl : word = 4 := by simpa [hlow] using hnarrow.symm
    exact (hiff.1 hzero).resolve_left (by decide) |>.2

/-- A layout whose words have no place in any memory. -/
def vastMantissa : Layout where
  name := "vast"
  exponentBits := 5
  mantissaBits := 0x1000000000000000000
  exponentBits_pos := Nat.succ_pos _
  mantissaBits_pos := Nat.succ_pos _

/-- A layout that may be narrowed to the half, but no machine has room for the mask of its words, so
not even its zero is narrowed. -/
theorem narrowWithin_of_vastMantissa :
    vastMantissa.Extends half ∧ ∀ capacity : Capacity,
      narrowWithin capacity vastMantissa half 0 = .error (.beyondCapacity .tooLong) := by
  have hextends : vastMantissa.Extends half := by decide
  refine ⟨hextends, fun capacity => ?_⟩
  have hlong : capacity.checkShift 1 vastMantissa.width = .error .tooLong := by
    rw [Capacity.checkShift, if_neg one_ne_zero]
    exact if_pos (by decide)
  rw [narrowWithin, if_pos hextends, hlong]

end HalfPrecision.Layout
