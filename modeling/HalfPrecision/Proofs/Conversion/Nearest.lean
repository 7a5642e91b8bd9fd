import HalfPrecision.Conversion
import HalfPrecision.Proofs.Fraction
import HalfPrecision.Proofs.Layout.Nearest
import HalfPrecision.Proofs.Conversion.Widening

/-!
# Rounding to the nearest pattern

A fraction is rounded to a significand at its own binary exponent, or at that of the least normal
number if this is greater. Significands from the hidden bit to its double step through the magnitudes
of one exponent, so the rounded significand gives the nearest magnitude, and an even one for a
midpoint. Patterns that have their value in the other layout are therefore converted without change
of value, which is what widening does.
-/

namespace HalfPrecision.Layout

section Significands

variable (L : Layout)

/-- Whether a significand is used at the `e`-th exponent, counted from that of the least normal
number. Only there it may lie below the hidden bit; its double stands for a carry. -/
def IsSignificand (e significand : Nat) : Prop :=
  significand ≤ 2 * L.hiddenBit ∧ (e ≠ 0 → L.hiddenBit ≤ significand)

variable {L} {e significand : Nat}

theorem spacing_one : L.spacing 1 = L.unit := by rw [spacing, Nat.sub_self, pow_zero, one_mul]

theorem two_dvd_hiddenBit (L : Layout) : 2 ∣ L.hiddenBit :=
  Dvd.intro_left _ (Nat.pow_pred_mul L.mantissaBits_pos)

/-- Significands step through the magnitudes of one exponent. -/
theorem IsSignificand.magnitudeValue_eq (h : L.IsSignificand e significand) :
    L.magnitudeValue (e * L.hiddenBit + significand) = significand * L.spacing (e + 1) := by
  rcases Nat.lt_or_ge significand L.hiddenBit with hlow | hlow
  · obtain rfl : e = 0 := by
      by_contra hne
      exact hlow.not_ge (h.2 hne)
    rw [Nat.zero_mul, Nat.zero_add, magnitudeValue, L.units_of_lt hlow, spacing_one]
  · have hcut : significand - L.hiddenBit ≤ L.hiddenBit := by
      have := h.1
      omega
    have hsplit : e * L.hiddenBit + significand =
        (e + 1) * L.hiddenBit + (significand - L.hiddenBit) := by
      rw [Nat.succ_mul]
      omega
    rw [hsplit, L.magnitudeValue_add (e + 1) hcut, L.magnitudeValue_mul_hiddenBit (Nat.succ_pos e),
      Nat.cast_sub hlow]
    ring

theorem IsSignificand.midpoint_eq (h : L.IsSignificand e significand)
    (h' : L.IsSignificand e (significand + 1)) :
    L.midpoint (e * L.hiddenBit + significand) = (significand + 1 / 2) * L.spacing (e + 1) := by
  rw [midpoint, Nat.add_assoc, h.magnitudeValue_eq, h'.magnitudeValue_eq]
  push_cast
  ring

/-- A significand rounded from a number below the double of the hidden bit, and from the hidden bit
on beyond the first exponent. -/
structure IsRounded (L : Layout) (e significand : Nat) (x : Rat) : Prop where
  lt : x < 2 * L.hiddenBit
  le : e ≠ 0 → L.hiddenBit ≤ x
  near_above : x ≤ significand + 1 / 2
  near_below : (significand : Rat) - 1 / 2 ≤ x
  even : ∀ n : Nat, x = n + 1 / 2 → significand % 2 = 0

namespace IsRounded

variable {x : Rat} (h : IsRounded L e significand x)

include h

theorem isSignificand : L.IsSignificand e significand := by
  constructor
  · have hlt : (significand : Rat) < (2 * L.hiddenBit + 1 : Nat) := by
      have := h.near_below
      have := h.lt
      push_cast
      linarith
    exact Nat.le_of_lt_succ (Nat.cast_lt.1 hlt)
  · intro he
    have hlt : (L.hiddenBit : Rat) < (significand + 1 : Nat) := by
      have := h.near_above
      have := h.le he
      push_cast
      linarith
    exact Nat.le_of_lt_succ (Nat.cast_lt.1 hlt)

/-- Below the rounded significand lies another one, or else the number is not below it. -/
theorem midpoint_pred_le {lower : Nat} (hlower : lower + 1 = e * L.hiddenBit + significand) :
    L.midpoint lower < x * L.spacing (e + 1) ∨
      L.midpoint lower ≤ x * L.spacing (e + 1) ∧ ∃ n : Nat, significand = n + 1 ∧
        L.midpoint lower = (n + 1 / 2) * L.spacing (e + 1) := by
  have hspacing := L.spacing_pos (e + 1)
  have hsignificand := h.isSignificand
  rcases Nat.eq_zero_or_pos significand with hzero | hpos
  · obtain rfl : e = 0 := by
      by_contra hne
      exact (L.hiddenBit_pos.trans_le (hsignificand.2 hne)).ne' hzero
    omega
  obtain ⟨n, rfl⟩ := Nat.exists_eq_succ_of_ne_zero hpos.ne'
  obtain rfl : lower = e * L.hiddenBit + n := by omega
  by_cases hn : e ≠ 0 ∧ n < L.hiddenBit
  · -- The least significand of its exponent is rounded from above.
    refine .inl ((L.midpoint_lt_magnitudeValue (Nat.lt_succ_self _)).trans_le ?_)
    have hleast : n + 1 = L.hiddenBit := Nat.le_antisymm hn.2 (hsignificand.2 hn.1)
    rw [Nat.succ_eq_add_one, Nat.add_assoc, hsignificand.magnitudeValue_eq]
    refine mul_le_mul_of_nonneg_right ?_ hspacing.le
    rw [Nat.succ_eq_add_one, hleast]
    exact h.le hn.1
  · have hbelow : L.IsSignificand e n :=
      ⟨Nat.le_of_succ_le hsignificand.1, fun he => not_lt.1 fun hlt => hn ⟨he, hlt⟩⟩
    have hmid := hbelow.midpoint_eq hsignificand
    refine .inr ⟨?_, n, rfl, hmid⟩
    rw [hmid]
    refine mul_le_mul_of_nonneg_right ?_ hspacing.le
    have := h.near_below
    push_cast at this
    linarith

/-- Above the rounded significand lies another one, or else the number is below it. -/
theorem le_midpoint :
    x * L.spacing (e + 1) < L.midpoint (e * L.hiddenBit + significand) ∨
      x * L.spacing (e + 1) ≤ L.midpoint (e * L.hiddenBit + significand) ∧
        L.midpoint (e * L.hiddenBit + significand) =
          (significand + 1 / 2) * L.spacing (e + 1) := by
  have hspacing := L.spacing_pos (e + 1)
  have hsignificand := h.isSignificand
  rcases Nat.lt_or_eq_of_le hsignificand.1 with hlt | heq
  · have habove : L.IsSignificand e (significand + 1) :=
      ⟨hlt, fun he => Nat.le_succ_of_le (hsignificand.2 he)⟩
    have hmid := hsignificand.midpoint_eq habove
    refine .inr ⟨?_, hmid⟩
    rw [hmid]
    exact mul_le_mul_of_nonneg_right h.near_above hspacing.le
  · refine .inl (lt_of_le_of_lt ?_ (L.magnitudeValue_lt_midpoint _))
    rw [hsignificand.magnitudeValue_eq]
    refine mul_le_mul_of_nonneg_right ?_ hspacing.le
    have := h.lt
    rw [heq]
    push_cast
    exact this.le

theorem midpoint_le_of_lt {lower : Nat} (hlt : lower < e * L.hiddenBit + significand) :
    L.midpoint lower ≤ x * L.spacing (e + 1) := by
  obtain ⟨below, hbelow⟩ := Nat.exists_eq_succ_of_ne_zero (Nat.ne_zero_of_lt hlt)
  have hmid : L.midpoint below ≤ x * L.spacing (e + 1) :=
    (h.midpoint_pred_le hbelow.symm).elim le_of_lt And.left
  exact (L.midpoint_strictMono.monotone (by omega)).trans hmid

/-- A rounded significand gives a magnitude that no other is nearer than, unless infinity comes
before it. -/
theorem isNearest :
    L.IsNearest (x * L.spacing (e + 1)) (min (e * L.hiddenBit + significand) L.infinity) := by
  refine (L.isNearest_iff _ _).2 ⟨Nat.min_le_right _ _, ?_, ?_⟩
  · intro lower hlower
    exact h.midpoint_le_of_lt (hlower.trans_le (Nat.min_le_left _ _))
  · intro hlt
    rw [Nat.min_eq_left (by omega)]
    exact h.le_midpoint.elim le_of_lt And.left

/-- A midpoint is next to the rounded significand, which is even then. -/
theorem mod_two_of_midpoint {lower : Nat} (hmid : x * L.spacing (e + 1) = L.midpoint lower) :
    (e * L.hiddenBit + significand) % 2 = 0 := by
  have hspacing := (L.spacing_pos (e + 1)).ne'
  have heven (hsignificand : significand % 2 = 0) : (e * L.hiddenBit + significand) % 2 = 0 := by
    obtain ⟨half, hhalf⟩ := L.two_dvd_hiddenBit
    rw [hhalf, Nat.mul_left_comm]
    omega
  rcases Nat.lt_or_ge lower (e * L.hiddenBit + significand) with hlt | hge
  · have hnext : lower + 1 = e * L.hiddenBit + significand := by
      by_contra hne
      have hstep := L.midpoint_strictMono (Nat.lt_succ_self lower)
      exact (hstep.trans_le (h.midpoint_le_of_lt (by omega))).ne hmid.symm
    rcases h.midpoint_pred_le hnext with hstrict | ⟨-, n, -, hhalf⟩
    · exact absurd hmid hstrict.ne'
    · rw [hhalf] at hmid
      exact heven (h.even n (mul_right_cancel₀ hspacing hmid))
  · have habove : x * L.spacing (e + 1) ≤ L.midpoint (e * L.hiddenBit + significand) :=
      h.le_midpoint.elim le_of_lt And.left
    have hsame : lower = e * L.hiddenBit + significand :=
      Nat.le_antisymm (L.midpoint_strictMono.le_iff_le.1 (hmid ▸ habove)) hge
    rcases h.le_midpoint with hstrict | ⟨-, hhalf⟩
    · exact absurd hmid (hsame ▸ hstrict.ne)
    · rw [hsame, hhalf] at hmid
      exact heven (h.even significand (mul_right_cancel₀ hspacing hmid))

theorem isNearestEven :
    L.IsNearestEven (x * L.spacing (e + 1)) (min (e * L.hiddenBit + significand) L.infinity) := by
  refine isNearestEven_iff.2 ⟨h.isNearest, ?_⟩
  intro lower hlower hmid
  -- Where infinity comes first, all midpoints lie below it, and so does the number.
  have hfirst : e * L.hiddenBit + significand ≤ L.infinity := by
    by_contra hlt
    have hinfinity := h.midpoint_le_of_lt (not_le.1 hlt)
    exact ((L.midpoint_strictMono hlower).trans_le hinfinity).ne hmid.symm
  rw [Nat.min_eq_left hfirst]
  exact h.mod_two_of_midpoint hmid

end IsRounded

end Significands

section Nearest

variable (L : Layout) (q : Fraction)

/-- The significand of a fraction at an exponent not below that of the fraction. -/
theorem isRounded_round {e : Nat} (hlt : q.toRat < 2 ^ (e + L.lowestExponent + 1))
    (hle : e ≠ 0 → 2 ^ (e + L.lowestExponent) ≤ q.toRat) :
    IsRounded L e (q.scaleTwo (L.mantissaBits - (e + L.lowestExponent))).round
      (q.toRat * 2 ^ (L.mantissaBits - (e + L.lowestExponent))) := by
  have hpow : (0 : Rat) < 2 ^ (L.mantissaBits - (e + L.lowestExponent)) := by positivity
  have hhidden : (L.hiddenBit : Rat) =
      2 ^ (e + L.lowestExponent) * 2 ^ (L.mantissaBits - (e + L.lowestExponent)) := by
    rw [hiddenBit, Nat.cast_pow, Nat.cast_ofNat, ← zpow_natCast, ← zpow_add₀ two_ne_zero]
    congr 1
    omega
  rw [← q.toRat_scaleTwo]
  refine ⟨?_, ?_, Fraction.toRat_le_round_add_half _, Fraction.round_sub_half_le_toRat _, ?_⟩
  · rw [q.toRat_scaleTwo, hhidden, ← mul_assoc, mul_comm 2, ← zpow_add_one₀ two_ne_zero]
    exact mul_lt_mul_of_pos_right hlt hpow
  · intro he
    rw [q.toRat_scaleTwo, hhidden]
    exact mul_le_mul_of_nonneg_right (hle he) hpow.le
  · intro n hhalf
    exact Fraction.round_mod_two_of_half _ hhalf

/-- The pattern nearest to a fraction is so indeed, and the even one of two that are equally near. -/
theorem isNearestEven_nearest : L.IsNearestEven q.toRat (L.nearest q) := by
  unfold nearest
  split
  next hzero =>
    rw [q.toRat_of_num_eq_zero hzero, ← L.magnitudeValue_zero]
    exact isNearestEven_magnitudeValue (Nat.zero_le _)
  next hnum =>
    obtain ⟨hlow, hhigh⟩ := q.two_zpow_log2 hnum
    obtain ⟨e, he⟩ := Int.eq_ofNat_of_zero_le
      (show 0 ≤ max q.log2 L.lowestExponent - L.lowestExponent by omega)
    have hexponent : max q.log2 L.lowestExponent = e + L.lowestExponent := by omega
    have hspacing : (2 : Rat) ^ (L.mantissaBits - (e + L.lowestExponent)) * L.spacing (e + 1) =
        1 := by
      rw [L.spacing_eq (Nat.succ_pos e), ← zpow_add₀ two_ne_zero, lowestExponent]
      convert zpow_zero (2 : Rat) using 2
      push_cast
      ring
    have hrounded := L.isRounded_round q (e := e) ?_ ?_
    · have hnear := hrounded.isNearestEven
      rw [mul_assoc, hspacing, mul_one] at hnear
      simpa only [hexponent, he, Int.add_sub_cancel, Int.toNat_natCast] using hnear
    · refine hhigh.trans_le (zpow_le_zpow_right₀ one_le_two ?_)
      omega
    · intro hne
      obtain hlog : q.log2 = e + L.lowestExponent := by omega
      rwa [← hlog]

/-- The fraction of stored fields has the value of their magnitude. -/
theorem toRat_magnitude {exponent mantissa : Nat} (hm : mantissa < L.hiddenBit) :
    (L.magnitude exponent mantissa).toRat =
      L.magnitudeValue (exponent * L.hiddenBit + mantissa) := by
  unfold magnitude
  split
  next hzero =>
    rw [Fraction.toRat_scaleTwo, Fraction.toRat_ofNat, hzero, Nat.zero_mul, Nat.zero_add,
      magnitudeValue, L.units_of_lt hm, unit, lowestExponent]
  next hne =>
    rw [Fraction.toRat_scaleTwo, Fraction.toRat_ofNat,
      L.magnitudeValue_mul_add (Nat.pos_of_ne_zero hne) hm]

end Nearest

section Convert

variable (S T : Layout) (bits : Int)

/-- The magnitude of a converted pattern. -/
def convertedMagnitude : Nat :=
  if (S.fields bits).exponent = S.exponentMax then
    if (S.fields bits).mantissa = 0 then T.infinity else T.quietNan
  else T.nearest (S.magnitude (S.fields bits).exponent (S.fields bits).mantissa)

theorem convertToEven_eq_signed :
    S.convertToEven T bits = T.signed (S.fields bits).sign (convertedMagnitude S T bits) := rfl

variable {S T bits}

theorem convertedMagnitude_of_isNaN (h : S.IsNaN bits) :
    convertedMagnitude S T bits = T.quietNan := by
  rw [convertedMagnitude, if_pos h.1, if_neg h.2]

theorem convertedMagnitude_of_infinity (he : (S.fields bits).exponent = S.exponentMax)
    (hm : (S.fields bits).mantissa = 0) : convertedMagnitude S T bits = T.infinity := by
  rw [convertedMagnitude, if_pos he, if_pos hm]

/-- A finite pattern is rounded, a tie going to the even neighbour. -/
theorem isNearestEven_convertedMagnitude (h : S.IsFinite bits) :
    T.IsNearestEven |S.value bits| (convertedMagnitude S T bits) := by
  have hnear := T.isNearestEven_nearest
    (S.magnitude (S.fields bits).exponent (S.fields bits).mantissa)
  rw [convertedMagnitude, if_neg h, abs_value, magnitudeBits_eq]
  rwa [S.toRat_magnitude (S.mantissa_lt bits)] at hnear

theorem convertedMagnitude_lt_signMask : convertedMagnitude S T bits < T.signMask := by
  by_cases hfinite : S.IsFinite bits
  · exact (isNearestEven_convertedMagnitude hfinite).1.trans_lt T.infinity_lt_signMask
  · have he : (S.fields bits).exponent = S.exponentMax := not_not.1 hfinite
    rw [convertedMagnitude, if_pos he]
    split
    · exact T.infinity_lt_signMask
    · exact T.quietNan_lt_signMask

theorem sign_convertToEven : (T.fields (S.convertToEven T bits)).sign = (S.fields bits).sign := by
  rw [convertToEven_eq_signed,
    fields_signed_magnitude (S.sign_lt bits) convertedMagnitude_lt_signMask]

theorem magnitudeBits_convertToEven :
    T.magnitudeBits (S.convertToEven T bits) = convertedMagnitude S T bits := by
  rw [convertToEven_eq_signed,
    magnitudeBits_signed (S.sign_lt bits) convertedMagnitude_lt_signMask]

/-- Where there is room for the denormals of `S`, rounding changes no value, so it is widening. -/
theorem Extends.convertToEven_eq_widenPattern (h : T.Extends S)
    (hroom : S.bias + S.mantissaBits ≤ T.bias) :
    (S.convertToEven T bits : Int) = widenPattern S T bits := by
  rw [convertToEven_eq_signed]
  by_cases hfinite : S.IsFinite bits
  · obtain ⟨magnitude, hlt, hpattern, hvalue, -⟩ := h.exists_widenPattern_eq hroom hfinite
    have hnear := (isNearestEven_convertedMagnitude (T := T) hfinite).isNearest
    rw [abs_value, ← hvalue] at hnear
    rw [hpattern, hnear.eq_of_magnitudeValue hlt.le]
  · have htop : (S.fields bits).exponent = S.exponentMax := not_not.1 hfinite
    by_cases hzero : (S.fields bits).mantissa = 0
    · rw [h.widenPattern_of_infinity htop hzero, convertedMagnitude_of_infinity htop hzero]
    · rw [widenPattern_of_isNaN ⟨htop, hzero⟩, convertedMagnitude_of_isNaN ⟨htop, hzero⟩]

end Convert

end HalfPrecision.Layout
