import HalfPrecision.Proofs.Layout.Magnitude
import Mathlib.Order.Monotone.Odd
import Mathlib.Order.WithBot
import Mathlib.Tactic.Linarith
import Mathlib.Tactic.Positivity

/-!
# The order of patterns

The patterns that are no NaNs are ordered by their values, with the infinities beyond all numbers
and both zeros equal. This is the order of the magnitudes taken with their signs.
-/

namespace HalfPrecision.Layout

variable (L : Layout)

/-- The value of a pattern that is no NaN. The infinities lie beyond all numbers. -/
def extendedValue (bits : Int) : WithBot (WithTop Rat) :=
  if L.IsFinite bits then ((L.value bits : WithTop Rat) : WithBot (WithTop Rat))
  else if (L.fields bits).sign = 0 then ⊤
  else ⊥

/-- The magnitude of a pattern, negative if the sign is set. -/
def signedMagnitude (bits : Int) : Int :=
  if (L.fields bits).sign = 0 then L.magnitudeBits bits else -L.magnitudeBits bits

/-- The value of a magnitude that is taken with a sign. -/
def signedValue (magnitude : Int) : Rat := magnitude.sign * L.magnitudeValue magnitude.natAbs

theorem signedValue_neg (magnitude : Int) :
    L.signedValue (-magnitude) = -L.signedValue magnitude := by
  simp [signedValue]

@[simp] theorem signedValue_natCast (magnitude : Nat) :
    L.signedValue magnitude = L.magnitudeValue magnitude := by
  cases magnitude with
  | zero => simp [signedValue]
  | succ n =>
      rw [signedValue, Int.sign_natCast_of_ne_zero n.succ_ne_zero, Int.cast_one, one_mul,
        Int.natAbs_natCast]

/-- Magnitudes that are taken with their signs are ordered as the values. -/
theorem signedValue_le_iff {lower greater : Int} :
    L.signedValue lower ≤ L.signedValue greater ↔ lower ≤ greater := by
  have hmono : StrictMono L.signedValue := by
    refine strictMono_of_odd_strictMonoOn_nonneg L.signedValue_neg ?_
    intro lower hlower greater hgreater hlt
    obtain ⟨lower, rfl⟩ := Int.eq_ofNat_of_zero_le hlower
    obtain ⟨greater, rfl⟩ := Int.eq_ofNat_of_zero_le hgreater
    rw [signedValue_natCast, signedValue_natCast]
    exact L.magnitudeValue_strictMono (Int.ofNat_lt.1 hlt)
  exact hmono.le_iff_le

variable {L} {p q bits : Int}

theorem value_of_sign_eq_zero (h : (L.fields bits).sign = 0) :
    L.value bits = L.magnitudeValue (L.magnitudeBits bits) := by
  rw [value, h, pow_zero, one_mul]

theorem value_of_sign_ne_zero (h : (L.fields bits).sign ≠ 0) :
    L.value bits = -L.magnitudeValue (L.magnitudeBits bits) := by
  have hone : (L.fields bits).sign = 1 :=
    Nat.le_antisymm (Nat.le_of_lt_succ (L.sign_lt bits)) (Nat.pos_of_ne_zero h)
  rw [value, hone, pow_one, neg_one_mul]

/-- Without a sign the values grow with the magnitudes. -/
theorem value_lt_value_iff_of_sign_eq_zero (hp : (L.fields p).sign = 0)
    (hq : (L.fields q).sign = 0) :
    L.value p < L.value q ↔ L.magnitudeBits p < L.magnitudeBits q := by
  rw [value_of_sign_eq_zero hp, value_of_sign_eq_zero hq, L.magnitudeValue_strictMono.lt_iff_lt]

/-- With a sign they fall. -/
theorem value_lt_value_iff_of_sign_ne_zero (hp : (L.fields p).sign ≠ 0)
    (hq : (L.fields q).sign ≠ 0) :
    L.value q < L.value p ↔ L.magnitudeBits p < L.magnitudeBits q := by
  rw [value_of_sign_ne_zero hp, value_of_sign_ne_zero hq, neg_lt_neg_iff,
    L.magnitudeValue_strictMono.lt_iff_lt]

theorem abs_value_lt_abs_value_iff :
    |L.value p| < |L.value q| ↔ L.magnitudeBits p < L.magnitudeBits q := by
  rw [abs_value, abs_value, L.magnitudeValue_strictMono.lt_iff_lt]

theorem value_eq_signedValue : L.value bits = L.signedValue (L.signedMagnitude bits) := by
  unfold signedMagnitude
  split
  next h => rw [value_of_sign_eq_zero h, signedValue_natCast]
  next h => rw [value_of_sign_ne_zero h, signedValue_neg, signedValue_natCast]

theorem value_le_value_iff : L.value p ≤ L.value q ↔ L.signedMagnitude p ≤ L.signedMagnitude q := by
  rw [value_eq_signedValue, value_eq_signedValue, signedValue_le_iff]

/-- A pattern that is no NaN stands for a number between the infinities, or is one of these and
counts as the next power of two. -/
theorem extendedValue_eq (hnan : ¬ L.IsNaN bits) :
    (L.extendedValue bits = ((L.value bits : WithTop Rat) : WithBot (WithTop Rat)) ∧
        |L.value bits| < L.magnitudeValue L.infinity) ∨
      (L.extendedValue bits = ⊤ ∧ L.value bits = L.magnitudeValue L.infinity) ∨
        (L.extendedValue bits = ⊥ ∧ L.value bits = -L.magnitudeValue L.infinity) := by
  by_cases hfinite : L.IsFinite bits
  · refine .inl ⟨if_pos hfinite, ?_⟩
    rw [abs_value]
    exact L.magnitudeValue_strictMono ((L.isFinite_iff bits).1 hfinite)
  · have hinfinity : L.magnitudeBits bits = L.infinity := by
      rw [isNaN_iff, not_lt] at hnan
      exact le_antisymm hnan (not_lt.1 ((L.isFinite_iff bits).not.1 hfinite))
    rw [extendedValue, if_neg hfinite, ← hinfinity]
    by_cases hsign : (L.fields bits).sign = 0
    · exact .inr (.inl ⟨if_pos hsign, value_of_sign_eq_zero hsign⟩)
    · exact .inr (.inr ⟨if_neg hsign, value_of_sign_ne_zero hsign⟩)

/-- Infinities beyond all numbers are ordered as the powers of two that they count as. -/
theorem extendedValue_le_iff (hp : ¬ L.IsNaN p) (hq : ¬ L.IsNaN q) :
    L.extendedValue p ≤ L.extendedValue q ↔ L.signedMagnitude p ≤ L.signedMagnitude q := by
  have hpos : 0 < L.magnitudeValue L.infinity := by
    rw [magnitudeValue_infinity]
    positivity
  rw [← value_le_value_iff]
  rcases extendedValue_eq hq with ⟨hq, hlt⟩ | ⟨hq, hvalue⟩ | ⟨hq, hvalue⟩
  · rcases extendedValue_eq hp with ⟨hp, -⟩ | ⟨hp, hvalue⟩ | ⟨hp, hvalue⟩
    · rw [hp, hq, WithBot.coe_le_coe, WithTop.coe_le_coe]
    · simp [hp, hq, hvalue, (abs_lt.1 hlt).2]
    · simp [hp, hq, hvalue, (abs_lt.1 hlt).1.le]
  · rcases extendedValue_eq hp with ⟨-, hlt⟩ | ⟨-, hvalue'⟩ | ⟨-, hvalue'⟩
    · simp [hq, hvalue, (abs_lt.1 hlt).2.le]
    · simp [hq, hvalue, hvalue']
    · simp [hq, hvalue, hvalue', hpos.le]
  · rcases extendedValue_eq hp with ⟨hp, hlt⟩ | ⟨hp, hvalue'⟩ | ⟨hp, hvalue'⟩
    · simp [hp, hq, hvalue, (abs_lt.1 hlt).1]
    · simp [hp, hq, hvalue, hvalue', hpos]
    · simp [hp, hq, hvalue, hvalue']

end HalfPrecision.Layout
