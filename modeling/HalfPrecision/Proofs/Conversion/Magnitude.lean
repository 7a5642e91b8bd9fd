import HalfPrecision.Proofs.Conversion.Narrowing

/-!
# Narrowing on magnitudes

Narrowing keeps the sign of a word and changes its magnitude without looking at the sign. On the
magnitudes it is one function, which gives zero below the normal numbers, the nearest magnitude
among them, infinity for infinity and the quiet NaN above. Up to infinity it never decreases.
-/

namespace HalfPrecision.Layout

/-- The magnitude in `T` for a magnitude of `S`. -/
def narrowed (S T : Layout) (magnitude : Nat) : Nat :=
  narrowMagnitude S T (magnitude / S.hiddenBit) (magnitude % S.hiddenBit)

variable {S T : Layout}

theorem narrowPattern_eq_signed (bits : Int) :
    narrowPattern S T bits =
      T.signed (S.fields bits).sign (narrowed S T (S.magnitudeBits bits)) := by
  rw [narrowed, ← exponent_eq, ← mantissa_eq]
  rfl

theorem narrowed_of_lt_hiddenBit {magnitude : Nat} (h : magnitude < S.hiddenBit) :
    narrowed S T magnitude = 0 := by
  rw [narrowed, Nat.div_eq_of_lt h, narrowMagnitude_zero]

@[simp] theorem narrowed_infinity : narrowed S T S.infinity = T.infinity := by
  rw [narrowed, infinity_eq, Nat.mul_div_cancel _ S.hiddenBit_pos, Nat.mul_mod_left,
    narrowMagnitude_infinity]

theorem narrowed_of_infinity_lt {magnitude : Nat} (h : S.infinity < magnitude)
    (hlt : magnitude < S.signMask) : narrowed S T magnitude = T.quietNan := by
  have hexponent : magnitude / S.hiddenBit = S.exponentMax := by
    apply Nat.div_eq_of_lt_le
    · exact h.le
    · rwa [exponentMax, Nat.sub_add_cancel (Nat.two_pow_pos _), ← signMask_eq]
  have hmantissa : magnitude % S.hiddenBit ≠ 0 := by
    intro hzero
    have hsplit := Nat.div_add_mod' magnitude S.hiddenBit
    rw [hexponent, hzero, Nat.add_zero, ← infinity_eq] at hsplit
    exact h.ne hsplit
  rw [narrowed, hexponent, narrowMagnitude_nan hmantissa]

/-- A pattern without sign and NaN is a magnitude, and it is narrowed to one. -/
theorem narrowPattern_natCast {magnitude : Nat} (hle : magnitude ≤ S.infinity) :
    narrowPattern S T magnitude = narrowed S T magnitude := by
  unfold narrowed
  simpa using narrowPattern_signed (T := T) Nat.two_pos (hle.trans_lt S.infinity_lt_signMask)

section Extends

variable (h : S.Extends T)

include h

/-- A normal magnitude is rounded to the nearest one. -/
theorem isNearestAway_narrowed {magnitude : Nat} (hlow : S.hiddenBit ≤ magnitude)
    (hhigh : magnitude < S.infinity) :
    T.IsNearestAway (S.magnitudeValue magnitude) (narrowed S T magnitude) := by
  have hpos : 0 < magnitude / S.hiddenBit := Nat.div_pos hlow S.hiddenBit_pos
  have hne : magnitude / S.hiddenBit ≠ S.exponentMax := by
    intro heq
    have := Nat.div_mul_le_self magnitude S.hiddenBit
    rw [heq, ← infinity_eq] at this
    exact hhigh.not_ge this
  have hnear := isNearestAway_narrowMagnitude hpos hne h (Nat.mod_lt magnitude S.hiddenBit_pos)
  rwa [Nat.div_add_mod'] at hnear

theorem narrowed_le_infinity {magnitude : Nat} (hle : magnitude ≤ S.infinity) :
    narrowed S T magnitude ≤ T.infinity := by
  rcases Nat.lt_or_ge magnitude S.hiddenBit with hlow | hlow
  · rw [narrowed_of_lt_hiddenBit hlow]
    exact Nat.zero_le _
  rcases Nat.lt_or_eq_of_le hle with hhigh | rfl
  · exact (isNearestAway_narrowed h hlow hhigh).1
  · exact narrowed_infinity.le

theorem narrowed_lt_signMask (magnitude : Nat) : narrowed S T magnitude < T.signMask :=
  narrowMagnitude_lt_signMask h (Nat.mod_lt _ S.hiddenBit_pos)

/-- Narrowing keeps the order of the magnitudes up to infinity. -/
theorem narrowed_mono {lower greater : Nat} (hle : lower ≤ greater)
    (hinfinity : greater ≤ S.infinity) : narrowed S T lower ≤ narrowed S T greater := by
  rcases Nat.lt_or_ge lower S.hiddenBit with hlow | hlow
  · rw [narrowed_of_lt_hiddenBit hlow]
    exact Nat.zero_le _
  rcases Nat.lt_or_eq_of_le hinfinity with hhigh | rfl
  · have hlower := isNearestAway_narrowed h hlow (hle.trans_lt hhigh)
    have hgreater := isNearestAway_narrowed h (hlow.trans hle) hhigh
    exact hlower.mono hgreater (S.magnitudeValue_strictMono.monotone hle)
  · rw [narrowed_infinity]
    exact narrowed_le_infinity h hle

theorem sign_narrowPattern (bits : Int) :
    (T.fields (narrowPattern S T bits)).sign = (S.fields bits).sign := by
  rw [narrowPattern_eq_signed, fields_signed_magnitude (S.sign_lt bits) (narrowed_lt_signMask h _)]

theorem magnitudeBits_narrowPattern (bits : Int) :
    T.magnitudeBits (narrowPattern S T bits) = narrowed S T (S.magnitudeBits bits) := by
  rw [narrowPattern_eq_signed, magnitudeBits_signed (S.sign_lt bits) (narrowed_lt_signMask h _)]

/-- The NaNs are narrowed to NaNs, and nothing else is. -/
theorem isNaN_narrowPattern_iff (bits : Int) :
    T.IsNaN (narrowPattern S T bits) ↔ S.IsNaN bits := by
  rw [isNaN_iff, isNaN_iff, magnitudeBits_narrowPattern h]
  constructor
  · intro hnan
    by_contra hle
    exact hnan.not_ge (narrowed_le_infinity h (not_lt.1 hle))
  · intro hnan
    rw [narrowed_of_infinity_lt hnan (S.magnitudeBits_lt bits)]
    exact T.infinity_lt_quietNan

end Extends

end HalfPrecision.Layout
