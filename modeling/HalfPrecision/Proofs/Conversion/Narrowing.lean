import HalfPrecision.Conversion
import HalfPrecision.Proofs.Layout.Midpoint
import Mathlib.Tactic.FieldSimp

/-!
# Narrowing rounds to nearest

A number of the wider layout lies within one binade of the narrower one, or below its first binade,
or above its last. Cutting and rounding the significand steps through the binade from its lowest
magnitude; a carry out of the mantissa reaches the lowest magnitude of the next binade, which for
the last one is infinity.
-/

namespace HalfPrecision

theorem roundShift_le {m k bound : Nat} (hk : 0 < k) (h : m ≤ bound * 2 ^ k) :
    roundShift m k ≤ bound := by
  have hnear := (roundShift_near m hk).1
  have hpos := Nat.two_pow_pos k
  by_contra hlt
  have hgap := Nat.mul_le_mul_right (2 ^ k) (not_le.1 hlt)
  rw [Nat.succ_mul] at hgap
  omega

/-- Less than half a step is rounded to nothing. -/
theorem roundShift_eq_zero {m k : Nat} (h : 2 * m < 2 ^ k) : roundShift m k = 0 :=
  Nat.div_eq_of_lt (by omega)

namespace Layout

/-- A number between two powers of two, given by the steps that it lies above the lower one, is
rounded by rounding its steps. -/
theorem isNearestAway_roundShift {L : Layout} {e n k : Nat} {v : Rat} (he : e < L.exponentMax)
    (hk : 0 < k) (hn : n ≤ L.hiddenBit * 2 ^ k)
    (hv : v = L.magnitudeValue (e * L.hiddenBit) + n / 2 ^ k * L.spacing e) :
    L.IsNearestAway v (e * L.hiddenBit + roundShift n k) := by
  have hpow : (0 : Rat) < 2 ^ k := by positivity
  have hspacing := L.spacing_pos e
  have hround := roundShift_le hk hn
  obtain ⟨hlow, hhigh⟩ := roundShift_near n hk
  rw [isNearestAway_iff]
  refine ⟨?_, ?_, ?_⟩
  · have hnext := Nat.mul_le_mul_right L.hiddenBit (Nat.succ_le_of_lt he)
    rw [Nat.succ_mul] at hnext
    rw [infinity_eq]
    omega
  · intro lower hlower
    cases hr : roundShift n k with
    | zero =>
        have hbase := L.midpoint_lt_magnitudeValue (hr ▸ hlower)
        have hsteps : 0 ≤ n / 2 ^ k * L.spacing e := by positivity
        rw [Nat.add_zero] at hbase
        linarith
    | succ q =>
        have hmid := L.midpoint_strictMono.monotone
          (show lower ≤ e * L.hiddenBit + q by omega)
        have hsteps : (q + 1 / 2 : Rat) ≤ n / 2 ^ k := by
          rw [le_div_iff₀ hpow]
          have hcast : ((2 * ((q + 1) * 2 ^ k) : Nat) : Rat) ≤ (2 * n + 2 ^ k : Nat) :=
            Nat.cast_le.2 (hr ▸ hlow)
          push_cast at hcast
          linarith
        rw [L.midpoint_add e (by omega)] at hmid
        have := mul_le_mul_of_nonneg_right hsteps hspacing.le
        linarith
  · intro _
    rcases Nat.lt_or_eq_of_le hround with hlt | heq
    · have hsteps : (n / 2 ^ k : Rat) < roundShift n k + 1 / 2 := by
        rw [div_lt_iff₀ hpow]
        have hcast : ((2 * n : Nat) : Rat) < (2 * (roundShift n k * 2 ^ k) + 2 ^ k : Nat) :=
          Nat.cast_lt.2 hhigh
        push_cast at hcast
        linarith
      rw [L.midpoint_add e hlt, hv]
      have := mul_lt_mul_of_pos_right hsteps hspacing
      linarith
    · -- The number is at most the next power of two, and the carry has reached that.
      have hsteps : (n / 2 ^ k : Rat) ≤ L.hiddenBit := by
        rw [div_le_iff₀ hpow]
        exact_mod_cast hn
      have htop := L.magnitudeValue_add e (Nat.le_refl L.hiddenBit)
      have hmid := L.magnitudeValue_lt_midpoint (e * L.hiddenBit + L.hiddenBit)
      have := mul_le_mul_of_nonneg_right hsteps hspacing.le
      rw [heq]
      linarith

section Narrow

variable {S T : Layout} {exponent mantissa : Nat}

/-- A number of `S` whose exponent is beyond those of `T` is at least infinity in `T`. -/
theorem magnitudeValue_infinity_le (he : 0 < exponent)
    (h : (T.exponentMax : Int) ≤ exponent - S.bias + T.bias) :
    T.magnitudeValue T.infinity ≤ S.magnitudeValue (exponent * S.hiddenBit + mantissa) := by
  have hlow : (2 : Rat) ^ (T.exponentMax - T.bias : Int) ≤ 2 ^ (exponent - S.bias : Int) :=
    zpow_le_zpow_right₀ one_le_two (by omega)
  have hbase : S.magnitudeValue (exponent * S.hiddenBit) = 2 ^ (exponent - S.bias : Int) := by
    rw [S.magnitudeValue_mul_hiddenBit he, S.spacing_eq he, hiddenBit, Nat.cast_pow,
      Nat.cast_ofNat, ← zpow_natCast, ← zpow_add₀ two_ne_zero]
    congr 1
    omega
  rw [T.magnitudeValue_infinity]
  calc (2 : Rat) ^ (T.exponentMax - T.bias : Int)
      ≤ 2 ^ (exponent - S.bias : Int) := hlow
    _ = S.magnitudeValue (exponent * S.hiddenBit) := hbase.symm
    _ ≤ S.magnitudeValue (exponent * S.hiddenBit + mantissa) :=
        S.magnitudeValue_strictMono.monotone (Nat.le_add_right _ _)

/-- A number of `S` below the normal ones of `T`, in units of `T`. -/
theorem magnitudeValue_eq_mul_unit {shift : Nat} (he : 0 < exponent) (hm : mantissa < S.hiddenBit)
    (h : (shift : Int) = S.mantissaBits - T.mantissaBits + 1 - (exponent - S.bias + T.bias)) :
    S.magnitudeValue (exponent * S.hiddenBit + mantissa) =
      (S.hiddenBit + mantissa : Nat) / 2 ^ shift * T.spacing 0 := by
  have hscale : (2 : Rat) ^ (exponent - S.bias - S.mantissaBits : Int) * 2 ^ shift = T.unit := by
    rw [unit, ← zpow_natCast, ← zpow_add₀ two_ne_zero]
    congr 1
    omega
  rw [S.magnitudeValue_mul_add he hm, spacing, ← hscale]
  field_simp
  simp

/-- A number of `S` among the normal ones of `T`, in steps from the lowest one of its exponent. -/
theorem magnitudeValue_eq_add_spacing {moved drop : Nat} (he : 0 < exponent)
    (hm : mantissa < S.hiddenBit) (hmoved : 0 < moved)
    (h : (moved : Int) = exponent - S.bias + T.bias)
    (hdrop : S.mantissaBits = T.mantissaBits + drop) :
    S.magnitudeValue (exponent * S.hiddenBit + mantissa) =
      T.magnitudeValue (moved * T.hiddenBit) + mantissa / 2 ^ drop * T.spacing moved := by
  have hscale : (2 : Rat) ^ (exponent - S.bias - S.mantissaBits : Int) * 2 ^ drop =
      T.spacing moved := by
    rw [T.spacing_eq hmoved, ← zpow_natCast, ← zpow_add₀ two_ne_zero]
    congr 1
    omega
  have hhidden : S.hiddenBit = T.hiddenBit * 2 ^ drop := by
    rw [hiddenBit, hiddenBit, hdrop, Nat.pow_add]
  rw [S.magnitudeValue_mul_add he hm, T.magnitudeValue_mul_hiddenBit hmoved, ← hscale, hhidden]
  push_cast
  field_simp

variable (he : 0 < exponent) (hmax : exponent ≠ S.exponentMax)

include he hmax

theorem narrowMagnitude_of_overflow (h : (T.exponentMax : Int) ≤ exponent - S.bias + T.bias) :
    narrowMagnitude S T exponent mantissa = T.infinity := by
  rw [narrowMagnitude, if_neg he.ne', if_neg hmax]
  exact if_pos h

/-- Below the normal numbers of `T` the significand is rounded, also where nothing is left of it. -/
theorem narrowMagnitude_of_nonpos {shift : Nat} (hm : mantissa < S.hiddenBit)
    (h : (exponent - S.bias + T.bias : Int) ≤ 0)
    (hshift : (S.mantissaBits - T.mantissaBits : Nat) + 1 - (exponent - S.bias + T.bias : Int) =
      shift) :
    narrowMagnitude S T exponent mantissa = roundShift (S.hiddenBit + mantissa) shift := by
  have hover : ¬ (exponent - S.bias + T.bias : Int) ≥ T.exponentMax := by
    have := T.exponentMax_pos
    omega
  rw [narrowMagnitude, if_neg he.ne', if_neg hmax]
  dsimp only
  rw [if_neg hover, if_pos h, hshift, Int.toNat_natCast]
  split
  next hfar =>
    have hpow := Nat.pow_le_pow_right Nat.two_pos (Nat.succ_le_of_lt hfar)
    rw [Nat.succ_eq_add_one, Nat.pow_succ, Nat.pow_succ, ← hiddenBit] at hpow
    exact (roundShift_eq_zero (by omega)).symm
  next => rfl

theorem narrowMagnitude_of_pos {moved : Nat} (hpos : 0 < moved) (hlt : moved < T.exponentMax)
    (h : (exponent - S.bias + T.bias : Int) = moved) :
    narrowMagnitude S T exponent mantissa =
      moved * T.hiddenBit + roundShift mantissa (S.mantissaBits - T.mantissaBits) := by
  rw [narrowMagnitude, if_neg he.ne', if_neg hmax]
  dsimp only
  rw [h, if_neg (by omega), if_neg (by omega), Int.toNat_natCast]

/-- The magnitude that narrowing gives to a normal number is nearest to its value. -/
theorem isNearestAway_narrowMagnitude (h : S.Extends T) (hm : mantissa < S.hiddenBit) :
    T.IsNearestAway (S.magnitudeValue (exponent * S.hiddenBit + mantissa))
      (narrowMagnitude S T exponent mantissa) := by
  obtain ⟨drop, hdrop⟩ := Nat.exists_eq_add_of_lt h.1
  by_cases hover : (T.exponentMax : Int) ≤ exponent - S.bias + T.bias
  · rw [narrowMagnitude_of_overflow he hmax hover]
    exact isNearestAway_infinity (magnitudeValue_infinity_le he hover)
  by_cases hdenormal : (exponent - S.bias + T.bias : Int) ≤ 0
  · obtain ⟨shift, hshift⟩ := Int.eq_ofNat_of_zero_le
      (show (0 : Int) ≤ (S.mantissaBits - T.mantissaBits : Nat) + 1 - (exponent - S.bias + T.bias)
        by omega)
    have hnear := isNearestAway_roundShift (L := T) (e := 0) (n := S.hiddenBit + mantissa)
      (k := shift) (v := S.magnitudeValue (exponent * S.hiddenBit + mantissa))
      T.exponentMax_pos (by omega) ?_ ?_
    · rw [narrowMagnitude_of_nonpos he hmax hm hdenormal hshift]
      rwa [Nat.zero_mul, Nat.zero_add] at hnear
    · have hwide := Nat.pow_le_pow_right Nat.two_pos
        (show S.mantissaBits + 1 ≤ T.mantissaBits + shift by omega)
      rw [Nat.pow_succ, Nat.pow_add 2 T.mantissaBits, ← hiddenBit, ← hiddenBit] at hwide
      omega
    · rw [Nat.zero_mul, magnitudeValue_zero, zero_add]
      exact magnitudeValue_eq_mul_unit he hm (by omega)
  · obtain ⟨moved, hmoved⟩ := Int.eq_ofNat_of_zero_le
      (show (0 : Int) ≤ exponent - S.bias + T.bias by omega)
    have hcut : S.mantissaBits - T.mantissaBits = drop + 1 := by omega
    rw [narrowMagnitude_of_pos he hmax (by omega) (by omega) hmoved, hcut]
    apply isNearestAway_roundShift
    · omega
    · exact Nat.succ_pos _
    · rw [hiddenBit, ← Nat.pow_add, ← Nat.add_assoc, ← hdrop]
      exact hm.le
    · exact magnitudeValue_eq_add_spacing he hm (by omega) hmoved.symm hdrop

end Narrow

section Patterns

variable {S T : Layout}

@[simp] theorem narrowMagnitude_zero (mantissa : Nat) : narrowMagnitude S T 0 mantissa = 0 := rfl

@[simp] theorem narrowMagnitude_infinity :
    narrowMagnitude S T S.exponentMax 0 = T.infinity := by
  simp [narrowMagnitude, S.exponentMax_pos.ne']

theorem narrowMagnitude_nan {mantissa : Nat} (hm : mantissa ≠ 0) :
    narrowMagnitude S T S.exponentMax mantissa = T.quietNan := by
  simp [narrowMagnitude, S.exponentMax_pos.ne', hm]

/-- Narrowing gives no magnitude above infinity but that of the quiet NaN. -/
theorem narrowMagnitude_le_infinity (h : S.Extends T) {exponent mantissa : Nat}
    (hm : mantissa < S.hiddenBit) :
    narrowMagnitude S T exponent mantissa ≤ T.infinity ∨
      narrowMagnitude S T exponent mantissa = T.quietNan := by
  rcases Nat.eq_zero_or_pos exponent with rfl | he
  · exact .inl (Nat.zero_le _)
  by_cases hmax : exponent = S.exponentMax
  · subst hmax
    by_cases hzero : mantissa = 0
    · exact .inl (hzero ▸ narrowMagnitude_infinity.le)
    · exact .inr (narrowMagnitude_nan hzero)
  · exact .inl (isNearestAway_narrowMagnitude he hmax h hm).1

theorem narrowMagnitude_lt_signMask (h : S.Extends T) {exponent mantissa : Nat}
    (hm : mantissa < S.hiddenBit) :
    narrowMagnitude S T exponent mantissa < T.signMask := by
  rcases narrowMagnitude_le_infinity h hm with hle | heq
  · exact hle.trans_lt T.infinity_lt_signMask
  · exact heq.trans_lt T.quietNan_lt_signMask

theorem narrowPattern_lt (h : S.Extends T) (bits : Int) : narrowPattern S T bits < 2 ^ T.width :=
  signed_lt (S.sign_lt bits) (narrowMagnitude_lt_signMask h (S.mantissa_lt bits))

theorem narrowPattern_signed {sign magnitude : Nat} (hs : sign < 2) (h : magnitude < S.signMask) :
    narrowPattern S T (S.signed sign magnitude : Nat) =
      T.signed sign
        (narrowMagnitude S T (magnitude / S.hiddenBit) (magnitude % S.hiddenBit)) := by
  rw [narrowPattern, fields_signed_magnitude hs h]

end Patterns

/-- Narrowing a normal number gives its sign above the magnitude nearest to its value, the greater
one of two that are equally near. -/
theorem narrow_isNearestAway {S T : Layout} (h : S.Extends T) {bits : Int}
    (hnormal : (S.fields bits).exponent ≠ 0)
    (hfinite : (S.fields bits).exponent ≠ S.exponentMax) :
    ∃ magnitude,
      narrow S T bits = .ok ((S.fields bits).sign * 2 ^ (T.width - 1) ||| magnitude) ∧
        T.IsNearestAway |S.value bits| magnitude := by
  have hnear := isNearestAway_narrowMagnitude (Nat.pos_of_ne_zero hnormal) hfinite h
    (S.mantissa_lt bits)
  refine ⟨_, ?_, by rwa [abs_value, magnitudeBits_eq]⟩
  rw [narrow_eq_ok h, narrowPattern]
  exact congrArg _ (signed_eq_or (hnear.1.trans_lt T.infinity_lt_signMask))

/-- A double halfway between the greatest half and the next power of two goes to infinity. -/
theorem narrow_isNearestAway_of_tie :
    double.Extends half ∧ (double.fields 0xC0EFFE0000000000).exponent ≠ 0 ∧
      (double.fields 0xC0EFFE0000000000).exponent ≠ double.exponentMax ∧
        narrow double half 0xC0EFFE0000000000 = .ok 0xFC00 ∧
          ∃ magnitude,
            narrow double half 0xC0EFFE0000000000 =
              .ok ((double.fields 0xC0EFFE0000000000).sign * 2 ^ (half.width - 1) ||| magnitude) ∧
                half.IsNearestAway |double.value 0xC0EFFE0000000000| magnitude :=
  ⟨by decide, by decide, by decide, by decide,
    narrow_isNearestAway (by decide) (by decide) (by decide)⟩

end Layout

end HalfPrecision
