import HalfPrecision.Capacity
import HalfPrecision.Conversion
import HalfPrecision.Layout
import HalfPrecision.Layout.Fields
import HalfPrecision.Basic

/-!
# Patterns of layouts with very large fields

A layout may have a mantissa field for which no mask can be made, or fields to whose places nothing
can be moved. What needs such a mask or such a place fails; all else has the same result as without
limits. Patterns that are shorter than the mantissa are understood without a mask being made.
-/

namespace HalfPrecision

/-- Why a conversion has no result. -/
inductive ConversionFailure where
  | refused (error : ConversionError)
  | beyondCapacity (error : CapacityError)
deriving DecidableEq, Repr

namespace Layout

variable (capacity : Capacity) (L : Layout)

/-- Whether the masks of the fields can be made; that of the sign is the longest. -/
def checkMasks : Except CapacityError Unit := capacity.checkShift 1 (L.width - 1)

/-- Whether a pattern, taken without its sign, lies within the mantissa. Its length tells. -/
def IsShort (bits : Int) : Prop := bits = 0 ∨ bits.natAbs.log2 < L.mantissaBits

instance (bits : Int) : Decidable (L.IsShort bits) := inferInstanceAs (Decidable (_ ∨ _))

theorem isShort_iff (bits : Int) : L.IsShort bits ↔ bits.natAbs < L.hiddenBit := by
  by_cases h : bits = 0
  · exact iff_of_true (.inl h) (h ▸ L.hiddenBit_pos)
  · rw [IsShort, or_iff_right h, Nat.log2_lt (Int.natAbs_ne_zero.2 h), hiddenBit]

/-- The fields of a pattern, for which the mask of the mantissa is needed. -/
def fieldsWithin (bits : Int) : Except CapacityError Fields :=
  (capacity.checkShift 1 L.mantissaBits).map fun _ =>
    if 0 ≤ bits ∧ L.IsShort bits then { sign := 0, exponent := 0, mantissa := bits.toNat }
    else L.fields bits

/-- The class of a pattern, for which its fields are needed. -/
def classifyWithin (bits : Int) : Except CapacityError FloatClass :=
  (capacity.checkShift 1 L.mantissaBits).map fun _ =>
    if L.IsShort bits then
      if bits = 0 then .zero else if 0 < bits then .denormal else .nan
    else L.classify bits

/-- The three parts moved to their places and joined. -/
def composeWithin (sign exponent mantissa : Int) : Except CapacityError Int := do
  let sign ← capacity.shift sign (L.width - 1)
  let exponent ← capacity.shift exponent L.mantissaBits
  return Bits.disjoin (Bits.disjoin sign exponent) mantissa

variable (S T : Layout)

/-- Narrowing, for which a mask of the whole word is needed. -/
def narrowWithin (bits : Int) : Except ConversionFailure Nat :=
  if S.Extends T then
    match capacity.checkShift 1 S.width with
    | .ok () =>
        .ok <|
          if S.IsShort bits then if 0 ≤ bits then 0 else T.signed 1 T.quietNan
          else narrowPattern S T bits
    | .error e => .error (.beyondCapacity e)
  else .error (.refused (.cannotNarrow S.name T.name))

/-- The pattern of `T` for a pattern of `S`, whose parts are moved to their places one by one: the
sign first and the exponent last, except that the exponent of an infinity or a NaN comes before the
mantissa. -/
def widenPatternWithin (bits : Int) : Except CapacityError Int := do
  capacity.checkShift 1 S.width
  if bits = 0 then return 0
  let parts := widenParts S T bits
  let sign ← capacity.shift parts.sign (T.width - 1)
  if (S.fields bits).exponent = S.exponentMax then
    capacity.checkShift parts.exponent T.mantissaBits
  let mantissa ← capacity.shift parts.significand parts.places
  let exponent ← capacity.shift parts.exponent T.mantissaBits
  return Bits.disjoin (Bits.disjoin sign exponent) mantissa

/-- Widening as far as the parts of the result can be moved to their places. -/
def widenWithin (bits : Int) : Except ConversionFailure Int :=
  if T.Extends S then
    match widenPatternWithin capacity S T bits with
    | .ok wide => .ok wide
    | .error e => .error (.beyondCapacity e)
  else .error (.refused (.cannotWiden S.name T.name))

variable {capacity}

/-- The fields of a short pattern that is not negative. -/
theorem fields_of_isShort {bits : Int} (h : L.IsShort bits) (hbits : 0 ≤ bits) :
    L.fields bits = { sign := 0, exponent := 0, mantissa := bits.toNat } := by
  obtain ⟨n, rfl⟩ := Int.eq_ofNat_of_zero_le hbits
  exact L.fields_natCast_of_lt ((L.isShort_iff n).1 h)

/-- The fields of a short pattern that is negative. -/
theorem fields_of_isShort_of_neg {bits : Int} (h : L.IsShort bits) (hbits : bits < 0) :
    L.fields bits =
      { sign := 1, exponent := L.exponentMax, mantissa := L.hiddenBit - bits.natAbs } := by
  have hfields := L.fields_neg_of_lt (Int.natAbs_ne_zero.2 (Int.ne_of_lt hbits))
    ((L.isShort_iff bits).1 h)
  rwa [Int.ofNat_natAbs_of_nonpos (Int.le_of_lt hbits), Int.neg_neg] at hfields

/-- Within the limits, fields are the same as without. -/
theorem eq_fields_of_fieldsWithin {bits : Int} {f : Fields} (h : L.fieldsWithin capacity bits = .ok f) :
    f = L.fields bits := by
  unfold fieldsWithin at h
  cases hc : capacity.checkShift 1 L.mantissaBits with
  | error e => rw [hc] at h; cases h
  | ok _ =>
      rw [hc] at h
      rw [← Except.ok.inj h]
      split
      next hs => exact (L.fields_of_isShort hs.2 hs.1).symm
      next => rfl

/-- Within the limits, classes are the same as without. -/
theorem eq_classify_of_classifyWithin {bits : Int} {c : FloatClass}
    (h : L.classifyWithin capacity bits = .ok c) : c = L.classify bits := by
  unfold classifyWithin at h
  cases hc : capacity.checkShift 1 L.mantissaBits with
  | error e => rw [hc] at h; cases h
  | ok _ =>
      rw [hc] at h
      rw [← Except.ok.inj h]
      split
      next hs =>
        have hlt := (L.isShort_iff bits).1 hs
        have hmax : L.exponentMax ≠ 0 :=
          Nat.sub_ne_zero_of_lt (Nat.one_lt_two_pow (Nat.ne_of_gt L.exponentBits_pos))
        by_cases hbits : 0 ≤ bits
        · rw [classify, L.fields_of_isShort hs hbits]
          grind
        · rw [classify, L.fields_of_isShort_of_neg hs (Int.lt_of_not_ge hbits)]
          grind
      next => rfl

/-- Within the limits, narrowing is the same as without. -/
theorem narrow_of_narrowWithin {S T : Layout} {bits : Int} {n : Nat}
    (h : narrowWithin capacity S T bits = .ok n) : narrow S T bits = .ok n := by
  unfold narrowWithin at h
  split at h
  next hext =>
    rw [narrow_eq_ok hext]
    cases hc : capacity.checkShift 1 S.width with
    | error e => rw [hc] at h; cases h
    | ok _ =>
        rw [hc] at h
        rw [← Except.ok.inj h, narrowPattern]
        split
        next hs =>
          have hlt := (S.isShort_iff bits).1 hs
          have hmax : S.exponentMax ≠ 0 :=
            Nat.sub_ne_zero_of_lt (Nat.one_lt_two_pow (Nat.ne_of_gt S.exponentBits_pos))
          by_cases hbits : 0 ≤ bits
          · rw [S.fields_of_isShort hs hbits, if_pos hbits]
            simp [signed, narrowMagnitude]
          · rw [S.fields_of_isShort_of_neg hs (Int.lt_of_not_ge hbits), if_neg hbits]
            simp [narrowMagnitude, hmax, Nat.sub_ne_zero_of_lt hlt]
        next => rfl
  next => cases h

/-- Zero is widened to zero. -/
theorem widenPattern_zero (S T : Layout) : widenPattern S T 0 = 0 := by
  have hfields : S.fields 0 = { sign := 0, exponent := 0, mantissa := 0 } :=
    S.fields_natCast_of_lt S.hiddenBit_pos
  simp [widenPattern, widenParts, hfields, compose]

/-- Within the limits, the pattern that results from widening is the same as without. -/
theorem eq_widenPattern_of_widenPatternWithin {S T : Layout} {bits wide : Int}
    (h : widenPatternWithin capacity S T bits = .ok wide) : wide = widenPattern S T bits := by
  unfold widenPatternWithin at h
  obtain ⟨_, -, h⟩ := exists_of_bind_eq_ok h
  split at h
  next hbits => rw [hbits, widenPattern_zero]; exact (Except.ok.inj h).symm
  next =>
    obtain ⟨sign, hsign, h⟩ := exists_of_bind_eq_ok h
    -- Whether the exponent is checked early has no bearing on the result.
    have hrest : (do
        let mantissa ← capacity.shift (widenParts S T bits).significand (widenParts S T bits).places
        let exponent ← capacity.shift (widenParts S T bits).exponent T.mantissaBits
        return Bits.disjoin (Bits.disjoin sign exponent) mantissa) = Except.ok wide := by
      split at h
      next =>
        obtain ⟨_, -, h⟩ := exists_of_bind_eq_ok h
        exact h
      next => exact h
    obtain ⟨mantissa, hmantissa, hrest⟩ := exists_of_bind_eq_ok hrest
    obtain ⟨exponent, hexponent, hrest⟩ := exists_of_bind_eq_ok hrest
    rw [widenPattern, compose, Int.natCast_mul, ← Capacity.eq_of_shift_eq_ok hsign,
      ← Capacity.eq_of_shift_eq_ok hexponent, ← Capacity.eq_of_shift_eq_ok hmantissa]
    exact (Except.ok.inj hrest).symm

/-- Within the limits, widening is the same as without. -/
theorem widen_of_widenWithin {S T : Layout} {bits wide : Int}
    (h : widenWithin capacity S T bits = .ok wide) : widen S T bits = .ok wide := by
  unfold widenWithin at h
  split at h
  next hext =>
    rw [widen_eq_ok hext]
    cases hp : widenPatternWithin capacity S T bits with
    | error e => rw [hp] at h; cases h
    | ok n =>
        rw [hp] at h
        rw [← Except.ok.inj h, eq_widenPattern_of_widenPatternWithin hp]
  next => cases h

/-- Within the limits, joined parts are the same as without. -/
theorem eq_compose_of_composeWithin {sign exponent mantissa word : Int}
    (h : L.composeWithin capacity sign exponent mantissa = .ok word) :
    word = L.compose sign exponent mantissa := by
  unfold composeWithin at h
  obtain ⟨s, hs, h⟩ := exists_of_bind_eq_ok h
  obtain ⟨e, he, h⟩ := exists_of_bind_eq_ok h
  rw [compose, ← Capacity.eq_of_shift_eq_ok hs, ← Capacity.eq_of_shift_eq_ok he]
  exact (Except.ok.inj h).symm

end Layout

end HalfPrecision
