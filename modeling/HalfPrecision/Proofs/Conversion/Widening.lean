import HalfPrecision.Proofs.Capacity
import HalfPrecision.Proofs.Conversion.Doubling
import HalfPrecision.Proofs.Layout.Magnitude
import Mathlib.Tactic.Ring

/-!
# Widening keeps values

The exponents of the narrower layout have their places among those of the wider one, whose bias is
not smaller. The denormals need further places below them, one for each bit of the mantissa. Where
the wider layout has them, widening keeps every value, and where it has not, the least denormal
already loses its value.
-/

namespace HalfPrecision

/-- The leading bit of a number below `2 ^ k` is raised to bit `k`, not beyond it. -/
theorem mul_two_pow_sub_log2 {k m : Nat} (hm : m ≠ 0) (h : m < 2 ^ k) :
    2 ^ k ≤ m * 2 ^ (k - m.log2) ∧ m * 2 ^ (k - m.log2) < 2 * 2 ^ k := by
  have hlog : m.log2 < k := (Nat.log2_lt hm).2 h
  have hsplit : 2 ^ k = 2 ^ m.log2 * 2 ^ (k - m.log2) := by
    rw [← Nat.pow_add]
    congr 1
    omega
  have hupper : m < 2 * 2 ^ m.log2 := by
    rw [Nat.mul_comm, ← Nat.pow_succ]
    exact Nat.lt_log2_self
  rw [hsplit, ← Nat.mul_assoc]
  exact ⟨Nat.mul_le_mul_right _ (Nat.log2_self_le hm),
    Nat.mul_lt_mul_of_pos_right hupper (Nat.two_pow_pos _)⟩

/-- The class of a pattern after widening. -/
def FloatClass.widened : FloatClass → FloatClass
  | denormal => normal
  | zero => zero
  | normal => normal
  | infinity => infinity
  | nan => nan

namespace Layout

variable {S T : Layout} {bits : Int}

theorem Extends.trans {A B C : Layout} (hCB : C.Extends B) (hBA : B.Extends A) : C.Extends A :=
  ⟨hBA.1.trans hCB.1, hBA.2.trans hCB.2⟩

section Extends

variable (h : T.Extends S)

include h

theorem Extends.bias_le : S.bias ≤ T.bias :=
  Nat.sub_le_sub_right (Nat.pow_le_pow_right Nat.two_pos (Nat.sub_le_sub_right h.2 1)) 1

theorem Extends.hiddenBit_eq :
    T.hiddenBit = S.hiddenBit * 2 ^ (T.mantissaBits - S.mantissaBits) := by
  rw [hiddenBit, hiddenBit, ← Nat.pow_add]
  congr 1
  have := h.1
  omega

/-- A significand padded with zeros lies within the mantissa. -/
theorem Extends.padded_lt {significand : Nat} (hs : significand < S.hiddenBit) :
    significand * 2 ^ (T.mantissaBits - S.mantissaBits) < T.hiddenBit := by
  rw [h.hiddenBit_eq]
  exact Nat.mul_lt_mul_of_pos_right hs (Nat.two_pow_pos _)

/-- The value of a significand of `S` at an exponent of `T`. -/
theorem Extends.magnitudeValue_padded {exponent significand : Nat} (he : 0 < exponent)
    (hs : significand < S.hiddenBit) :
    T.magnitudeValue
        (exponent * T.hiddenBit + significand * 2 ^ (T.mantissaBits - S.mantissaBits)) =
      (S.hiddenBit + significand : Nat) * 2 ^ (exponent - T.bias - S.mantissaBits : Int) := by
  obtain ⟨grow, hgrow⟩ := Nat.exists_eq_add_of_le h.1.le
  have hcut : T.mantissaBits - S.mantissaBits = grow := by omega
  have hscale : (2 : Rat) ^ (exponent - T.bias - S.mantissaBits : Int) =
      2 ^ (exponent - T.bias - T.mantissaBits : Int) * 2 ^ grow := by
    rw [← zpow_natCast, ← zpow_add₀ two_ne_zero]
    congr 1
    omega
  rw [T.magnitudeValue_mul_add he (h.padded_lt hs), hscale, h.hiddenBit_eq, hcut, ← Nat.add_mul]
  push_cast
  ring

/-- The parts of a number with an exponent of `T` are joined to a magnitude. -/
theorem Extends.compose_padded {sign exponent significand : Nat} (he : exponent ≤ T.exponentMax)
    (hs : significand < S.hiddenBit) :
    T.compose sign exponent
        (significand * 2 ^ (T.mantissaBits - S.mantissaBits) : Nat) =
      (T.signed sign (exponent * T.hiddenBit +
        significand * 2 ^ (T.mantissaBits - S.mantissaBits)) : Nat) :=
  T.compose_natCast (he.trans_lt T.exponentMax_lt) (h.padded_lt hs)

theorem Extends.widenPattern_of_zero (he : (S.fields bits).exponent = 0)
    (hm : (S.fields bits).mantissa = 0) :
    widenPattern S T bits = (T.signed (S.fields bits).sign 0 : Nat) := by
  have hcompose : T.compose (S.fields bits).sign (0 : Nat)
      (0 * 2 ^ (T.mantissaBits - S.mantissaBits) : Nat) = _ :=
    h.compose_padded (Nat.zero_le _) S.hiddenBit_pos
  rw [Nat.zero_mul, Nat.zero_mul, Nat.zero_add] at hcompose
  simpa [widenPattern, widenParts, he, hm] using hcompose

theorem Extends.widenPattern_of_infinity (he : (S.fields bits).exponent = S.exponentMax)
    (hm : (S.fields bits).mantissa = 0) :
    widenPattern S T bits = (T.signed (S.fields bits).sign T.infinity : Nat) := by
  have hcompose : T.compose (S.fields bits).sign T.exponentMax
      (0 * 2 ^ (T.mantissaBits - S.mantissaBits) : Nat) = _ :=
    h.compose_padded le_rfl S.hiddenBit_pos
  rw [Nat.zero_mul, Nat.add_zero, ← infinity_eq] at hcompose
  simpa [widenPattern, widenParts, he, hm, S.exponentMax_pos.ne'] using hcompose

omit h in
theorem widenPattern_of_isNaN (hnan : S.IsNaN bits) :
    widenPattern S T bits = (T.signed (S.fields bits).sign T.quietNan : Nat) := by
  have hcompose : T.compose (S.fields bits).sign T.exponentMax
      (2 ^ (T.mantissaBits - 1) : Nat) = _ :=
    T.compose_natCast T.exponentMax_lt T.quietMantissa_lt
  rw [← quietNan_eq] at hcompose
  simpa [widenPattern, widenParts, hnan.1, hnan.2, S.exponentMax_pos.ne'] using hcompose

/-- The exponent of a normal number is moved by the difference of the biases. -/
theorem Extends.widenPattern_of_normal (he : (S.fields bits).exponent ≠ 0)
    (hmax : (S.fields bits).exponent ≠ S.exponentMax) {exponent : Nat}
    (hexponent : ((S.fields bits).exponent - S.bias + T.bias : Int) = exponent) :
    widenPattern S T bits =
      (T.signed (S.fields bits).sign (exponent * T.hiddenBit +
        (S.fields bits).mantissa * 2 ^ (T.mantissaBits - S.mantissaBits)) : Nat) := by
  have hle : exponent ≤ T.exponentMax := by
    have := S.exponent_le bits
    have := h.bias_le
    rw [exponentMax_eq] at *
    omega
  rw [widenPattern, widenParts]
  simp only [if_neg he, if_neg hmax, hexponent]
  exact h.compose_padded hle (S.mantissa_lt bits)

omit h in
/-- The mantissa of a denormal is doubled until it has its hidden bit. -/
theorem raisedTo_hiddenBit {m : Nat} (hm : m ≠ 0) (hlt : m < S.hiddenBit) :
    RaisedTo S.mantissaBits m (m * 2 ^ (S.mantissaBits - m.log2)) (S.mantissaBits - m.log2) := by
  apply RaisedTo.of_lt hm
  rw [Nat.pow_succ, ← hiddenBit]
  omega

omit h in
/-- The exponent of a denormal is lowered once for each place by which its leading bit is raised to
the hidden one. -/
theorem widenPattern_of_denormal (he : (S.fields bits).exponent = 0)
    (hm : (S.fields bits).mantissa ≠ 0) {doublings : Nat}
    (hdoublings : doublings = S.mantissaBits - (S.fields bits).mantissa.log2) :
    widenPattern S T bits =
      T.compose (S.fields bits).sign (1 - S.bias + T.bias - doublings)
        (((S.fields bits).mantissa * 2 ^ doublings - S.hiddenBit) *
          2 ^ (T.mantissaBits - S.mantissaBits) : Nat) := by
  have hlt := S.mantissa_lt bits
  obtain ⟨hlow, hhigh⟩ := mul_two_pow_sub_log2 hm hlt
  have hraise : raiseToBit S.mantissaBits S.mantissaBits (S.fields bits).mantissa =
      ((S.fields bits).mantissa * 2 ^ doublings, doublings) := by
    rw [hdoublings]
    exact (raisedTo_hiddenBit hm hlt).raiseToBit_eq (Nat.sub_le _ _)
  rw [← hdoublings, ← hiddenBit] at hlow hhigh
  have hcut : (S.fields bits).mantissa * 2 ^ doublings % S.hiddenBit =
      (S.fields bits).mantissa * 2 ^ doublings - S.hiddenBit := by
    rw [Nat.mod_eq_sub_mod hlow, Nat.mod_eq_of_lt (by omega)]
  rw [widenPattern, widenParts]
  simp only [if_pos he, if_neg hm, hraise, hcut]

theorem Extends.padded_lt_infinity {exponent significand : Nat} (he : exponent < T.exponentMax)
    (hs : significand < S.hiddenBit) :
    exponent * T.hiddenBit + significand * 2 ^ (T.mantissaBits - S.mantissaBits) <
      T.infinity := by
  have hnext := Nat.mul_le_mul_right T.hiddenBit (Nat.succ_le_of_lt he)
  have hpad := h.padded_lt hs
  rw [Nat.succ_mul] at hnext
  rw [infinity_eq]
  omega

/-- A normal number has a normal magnitude of its value in `T`. -/
theorem Extends.exists_widenPattern_of_normal (he : (S.fields bits).exponent ≠ 0)
    (hfinite : S.IsFinite bits) :
    ∃ magnitude < T.infinity,
      widenPattern S T bits = (T.signed (S.fields bits).sign magnitude : Nat) ∧
        T.magnitudeValue magnitude = S.magnitudeValue (S.magnitudeBits bits) ∧
          T.hiddenBit ≤ magnitude := by
  have hlt := S.mantissa_lt bits
  have hle := S.exponent_le bits
  have hne : (S.fields bits).exponent ≠ S.exponentMax := hfinite
  have hbias := h.bias_le
  have hS := S.exponentMax_eq
  have hT := T.exponentMax_eq
  obtain ⟨exponent, hexponent⟩ := Int.eq_ofNat_of_zero_le
    (show (0 : Int) ≤ (S.fields bits).exponent - S.bias + T.bias by omega)
  refine ⟨_, h.padded_lt_infinity (by omega) hlt, h.widenPattern_of_normal he hfinite hexponent,
    ?_, Nat.le_add_right_of_le (Nat.le_mul_of_pos_left _ (by omega))⟩
  rw [h.magnitudeValue_padded (by omega) hlt, magnitudeBits_eq,
    S.magnitudeValue_mul_add (Nat.pos_of_ne_zero he) hlt]
  congr 2
  omega

omit h in
/-- The least denormal is a power of two, so nothing but its exponent is left of it. -/
theorem widenPattern_one :
    widenPattern S T 1 = (1 - S.bias + T.bias - S.mantissaBits) * T.hiddenBit := by
  have he : (S.fields 1).exponent = 0 := by rw [fields_one]
  have hm : (S.fields 1).mantissa ≠ 0 := by
    rw [fields_one]
    exact one_ne_zero
  have hpattern := widenPattern_of_denormal (T := T) he hm rfl
  have hlog : Nat.log2 1 = 0 := by decide
  rw [fields_one, hlog, Nat.sub_zero, Nat.one_mul, ← hiddenBit, Nat.sub_self,
    Nat.zero_mul] at hpattern
  simpa [compose, hiddenBit] using hpattern

section Room

variable (hroom : S.bias + S.mantissaBits ≤ T.bias)

include hroom

/-- Where there is room below the exponents of `S`, a denormal has a normal magnitude of its value
in `T`. -/
theorem Extends.exists_widenPattern_of_denormal (he : (S.fields bits).exponent = 0)
    (hm : (S.fields bits).mantissa ≠ 0) :
    ∃ magnitude < T.infinity,
      widenPattern S T bits = (T.signed (S.fields bits).sign magnitude : Nat) ∧
        T.magnitudeValue magnitude = S.magnitudeValue (S.magnitudeBits bits) ∧
          T.hiddenBit ≤ magnitude := by
  have hlt := S.mantissa_lt bits
  have hT := T.exponentMax_eq
  obtain ⟨hlow, hhigh⟩ := mul_two_pow_sub_log2 hm hlt
  have hlog := (Nat.log2_lt hm).2 hlt
  generalize hdoublings :
    S.mantissaBits - (S.fields bits).mantissa.log2 = doublings at hlow hhigh
  obtain ⟨exponent, hexponent⟩ := Int.eq_ofNat_of_zero_le
    (show (0 : Int) ≤ 1 - S.bias + T.bias - doublings by omega)
  have hpattern := widenPattern_of_denormal (T := T) he hm hdoublings.symm
  rw [← hiddenBit] at hlow hhigh
  rw [hexponent, h.compose_padded (by omega) (by omega)] at hpattern
  refine ⟨_, h.padded_lt_infinity (by omega) (by omega), hpattern, ?_,
    Nat.le_add_right_of_le (Nat.le_mul_of_pos_left _ (by omega))⟩
  have hscale : (2 : Rat) ^ (exponent - T.bias - S.mantissaBits : Int) * 2 ^ doublings =
      S.unit := by
    rw [unit, ← zpow_natCast, ← zpow_add₀ two_ne_zero]
    congr 1
    omega
  rw [h.magnitudeValue_padded (by omega) (by omega), magnitudeBits_eq, he, Nat.zero_mul,
    Nat.zero_add, magnitudeValue, S.units_of_lt hlt, ← hscale, Nat.add_sub_cancel' hlow]
  push_cast
  ring

/-- Where there is room below the exponents of `S`, a finite pattern has a magnitude of its value
in `T`, and a normal one unless it is a zero. -/
theorem Extends.exists_widenPattern_eq (hfinite : S.IsFinite bits) :
    ∃ magnitude < T.infinity,
      widenPattern S T bits = (T.signed (S.fields bits).sign magnitude : Nat) ∧
        T.magnitudeValue magnitude = S.magnitudeValue (S.magnitudeBits bits) ∧
          (S.magnitudeBits bits ≠ 0 → T.hiddenBit ≤ magnitude) := by
  by_cases he : (S.fields bits).exponent = 0
  · by_cases hm : (S.fields bits).mantissa = 0
    · have hzero : S.magnitudeBits bits = 0 := by rw [magnitudeBits_eq, he, hm, Nat.zero_mul]
      refine ⟨0, T.hiddenBit_pos.trans_le T.hiddenBit_le_infinity,
        h.widenPattern_of_zero he hm, ?_, fun hne => absurd hzero hne⟩
      rw [hzero, magnitudeValue_zero, magnitudeValue_zero]
    · obtain ⟨magnitude, hlt, hpattern, hvalue, hnormal⟩ :=
        h.exists_widenPattern_of_denormal hroom he hm
      exact ⟨magnitude, hlt, hpattern, hvalue, fun _ => hnormal⟩
  · obtain ⟨magnitude, hlt, hpattern, hvalue, hnormal⟩ :=
      h.exists_widenPattern_of_normal he hfinite
    exact ⟨magnitude, hlt, hpattern, hvalue, fun _ => hnormal⟩

end Room

end Extends

/-- Whether widening gives a pattern of `T` with the same sign and the same value. -/
def WidensExactly (S T : Layout) (bits : Int) : Prop :=
  ∃ wide : Nat, widen S T bits = .ok wide ∧ wide < 2 ^ T.width ∧
    (T.fields wide).sign = (S.fields bits).sign ∧ T.IsFinite wide ∧ T.value wide = S.value bits

theorem Extends.widensExactly (h : T.Extends S) (hroom : S.bias + S.mantissaBits ≤ T.bias)
    (hfinite : S.IsFinite bits) : WidensExactly S T bits := by
  obtain ⟨magnitude, hlt, hpattern, hvalue, _⟩ := h.exists_widenPattern_eq hroom hfinite
  have hsign := S.sign_lt bits
  have hmag := hlt.trans T.infinity_lt_signMask
  refine ⟨_, by rw [widen_eq_ok h, hpattern], signed_lt hsign hmag, ?_, ?_, ?_⟩
  · rw [fields_signed_magnitude hsign hmag]
  · rwa [isFinite_iff, magnitudeBits_signed hsign hmag]
  · rw [value_signed hsign hmag, hvalue, value]

/-- Without room below the exponents of `S` the least denormal is lost. -/
theorem Extends.not_widensExactly_one (h : T.Extends S)
    (hroom : T.bias < S.bias + S.mantissaBits) : ¬ WidensExactly S T 1 := by
  rintro ⟨wide, hwide, _, _, _, hvalue⟩
  rw [widen_eq_ok h, widenPattern_one, Except.ok.injEq] at hwide
  -- The exponent is not positive, and a negative one would give a negative pattern.
  have hnonpos : (1 - S.bias + T.bias - S.mantissaBits : Int) * T.hiddenBit ≤ 0 :=
    mul_nonpos_of_nonpos_of_nonneg (by omega) (Int.natCast_nonneg _)
  have hzero : wide = T.signed 0 0 := by
    rw [signed]
    omega
  have hone : S.value 1 = S.magnitudeValue 1 := by
    rw [value, magnitudeBits_eq, fields_one, pow_zero, one_mul, Nat.zero_mul, Nat.zero_add]
  rw [hone, hzero, value_signed Nat.two_pos T.signMask_pos, magnitudeValue_zero,
    mul_zero] at hvalue
  have hpos := S.magnitudeValue_strictMono Nat.one_pos
  rw [magnitudeValue_zero, ← hvalue] at hpos
  exact lt_irrefl _ hpos

/-- Where there is room, a finite pattern keeps its class, except that a denormal becomes normal. -/
theorem Extends.classify_widen_of_isFinite (h : T.Extends S)
    (hroom : S.bias + S.mantissaBits ≤ T.bias) (hfinite : S.IsFinite bits) :
    ∃ magnitude < T.signMask,
      widenPattern S T bits = (T.signed (S.fields bits).sign magnitude : Nat) ∧
        T.classify (T.signed (S.fields bits).sign magnitude : Nat) =
          (S.classify bits).widened := by
  obtain ⟨magnitude, hlt, hpattern, hvalue, hnormal⟩ := h.exists_widenPattern_eq hroom hfinite
  have hmag := hlt.trans T.infinity_lt_signMask
  refine ⟨magnitude, hmag, hpattern, ?_⟩
  by_cases hzero : S.magnitudeBits bits = 0
  · rw [(S.classify_eq_zero_iff bits).2 hzero]
    refine (T.classify_eq_zero_iff _).2 ?_
    rw [magnitudeBits_signed (S.sign_lt bits) hmag]
    rw [hzero, magnitudeValue_zero, ← T.magnitudeValue_zero] at hvalue
    exact T.magnitudeValue_strictMono.injective hvalue
  · have hwidened : (S.classify bits).widened = .normal := by
      have hfin := (S.isFinite_iff bits).1 hfinite
      by_cases hden : S.magnitudeBits bits < S.hiddenBit
      · rw [(S.classify_eq_denormal_iff bits).2 ⟨Nat.pos_of_ne_zero hzero, hden⟩]
        rfl
      · rw [(S.classify_eq_normal_iff bits).2 ⟨not_lt.1 hden, hfin⟩]
        rfl
    rw [hwidened, classify_eq_normal_iff, magnitudeBits_signed (S.sign_lt bits) hmag]
    exact ⟨hnormal hzero, hlt⟩

/-- Where there is room, every pattern has a word of `T` with its sign. Denormals become normal, all
other classes are kept, and the NaNs become one. -/
theorem Extends.exists_widen_classify (h : T.Extends S)
    (hroom : S.bias + S.mantissaBits ≤ T.bias) (bits : Int) :
    ∃ magnitude < T.signMask,
      widenPattern S T bits = (T.signed (S.fields bits).sign magnitude : Nat) ∧
        T.classify (T.signed (S.fields bits).sign magnitude : Nat) =
          (S.classify bits).widened ∧
            (S.classify bits = .nan → magnitude = T.quietNan) := by
  have hsign := S.sign_lt bits
  by_cases hfinite : S.IsFinite bits
  · obtain ⟨magnitude, hmag, hpattern, hclass⟩ := h.classify_widen_of_isFinite hroom hfinite
    refine ⟨magnitude, hmag, hpattern, hclass, ?_⟩
    intro hnan
    rw [classify_eq_nan_iff] at hnan
    rw [isFinite_iff] at hfinite
    omega
  by_cases hnan : S.IsNaN bits
  · refine ⟨T.quietNan, T.quietNan_lt_signMask, widenPattern_of_isNaN hnan, ?_, fun _ => rfl⟩
    rw [(S.classify_eq_nan_iff bits).2 ((S.isNaN_iff bits).1 hnan)]
    refine (T.classify_eq_nan_iff _).2 ?_
    rw [magnitudeBits_signed hsign T.quietNan_lt_signMask]
    exact T.infinity_lt_quietNan
  · have htop : (S.fields bits).exponent = S.exponentMax := not_not.1 hfinite
    have hclass : S.classify bits = .infinity := by
      rw [isFinite_iff] at hfinite
      rw [isNaN_iff] at hnan
      rw [classify_eq_infinity_iff]
      omega
    refine ⟨T.infinity, T.infinity_lt_signMask,
      h.widenPattern_of_infinity htop (not_not.1 fun hm => hnan ⟨htop, hm⟩), ?_, ?_⟩
    · rw [hclass]
      refine (T.classify_eq_infinity_iff _).2 ?_
      exact magnitudeBits_signed hsign T.infinity_lt_signMask
    · rw [hclass]
      exact fun h => absurd h (by decide)

theorem Extends.natCast_toNat_widenPattern (h : T.Extends S)
    (hroom : S.bias + S.mantissaBits ≤ T.bias) (bits : Int) :
    ((widenPattern S T bits).toNat : Int) = widenPattern S T bits := by
  obtain ⟨magnitude, -, hpattern, -⟩ := h.exists_widen_classify hroom bits
  rw [hpattern, Int.toNat_natCast]

/-- Where there is room, a widened pattern has no bits beyond the word. -/
theorem Extends.toNat_widenPattern_lt (h : T.Extends S)
    (hroom : S.bias + S.mantissaBits ≤ T.bias) (bits : Int) :
    (widenPattern S T bits).toNat < 2 ^ T.width := by
  obtain ⟨magnitude, hmag, hpattern, _⟩ := h.exists_widen_classify hroom bits
  rw [hpattern, Int.toNat_natCast]
  exact signed_lt (S.sign_lt bits) hmag

theorem Extends.widen_eq_ok_toNat (h : T.Extends S) (hroom : S.bias + S.mantissaBits ≤ T.bias)
    (bits : Int) : widen S T bits = .ok ((widenPattern S T bits).toNat : Int) := by
  rw [widen_eq_ok h, h.natCast_toNat_widenPattern hroom]

theorem Extends.classify_toNat_widenPattern (h : T.Extends S)
    (hroom : S.bias + S.mantissaBits ≤ T.bias) (bits : Int) :
    T.classify (widenPattern S T bits).toNat = (S.classify bits).widened := by
  obtain ⟨magnitude, -, hpattern, hclass, -⟩ := h.exists_widen_classify hroom bits
  rw [hpattern, Int.toNat_natCast, hclass]

/-- Widening is exact for the layouts with room below the exponents of `S`, and for no others. There
denormals become normal numbers, the other classes are kept, and every NaN becomes the quiet one
with its sign. Where the words of the wider layout have a place in memory, no pattern is refused. -/
theorem widensExactly_iff_room {S T : Layout} (h : T.Extends S) :
    (S.bias + S.mantissaBits ≤ T.bias ↔ ∀ bits, S.IsFinite bits → WidensExactly S T bits) ∧
      (S.bias + S.mantissaBits ≤ T.bias → ∀ bits, ∃ wide : Nat, widen S T bits = .ok wide ∧
        T.classify wide = (S.classify bits).widened ∧
          (T.fields wide).sign = (S.fields bits).sign ∧
            (S.classify bits = .nan →
              wide = (S.fields bits).sign * 2 ^ (T.width - 1) ||| T.quietNan)) ∧
      ∀ capacity : Capacity, T.width ≤ capacity.memoryBits →
        ∀ bits wide, widen S T bits = .ok wide → widenWithin capacity S T bits = .ok wide := by
  refine ⟨⟨?_, ?_⟩, ?_, ?_⟩
  · intro hroom bits hfinite
    exact h.widensExactly hroom hfinite
  · intro hexact
    by_contra hroom
    exact h.not_widensExactly_one (not_le.1 hroom) (hexact 1 S.isFinite_one)
  · intro hroom bits
    obtain ⟨magnitude, hmag, hpattern, hclass, hquiet⟩ := h.exists_widen_classify hroom bits
    refine ⟨_, by rw [widen_eq_ok h, hpattern], hclass, ?_, ?_⟩
    · rw [fields_signed_magnitude (S.sign_lt bits) hmag]
    · intro hnan
      rw [hquiet hnan]
      exact signed_eq_or T.quietNan_lt_signMask
  · intro capacity hmemory bits wide hwide
    rw [widen_eq_ok h] at hwide
    rw [widenWithin_eq_ok h hmemory, Except.ok.inj hwide]

/-- Singles have room for the denormals of halves, of which the least is `2 ^ -24`. -/
theorem widensExactly_half_single :
    single.Extends half ∧ half.bias + half.mantissaBits ≤ single.bias ∧
      (∀ bits, half.IsFinite bits → WidensExactly half single bits) ∧
        single.width ≤ Capacity.workstation.memoryBits ∧
          widenWithin .workstation half single 1 = .ok 0x33800000 := by
  have hextends : single.Extends half := by decide
  have hroom : half.bias + half.mantissaBits ≤ single.bias := by decide
  have hmemory : single.width ≤ Capacity.workstation.memoryBits := by decide
  have hwide : widen half single 1 = .ok 0x33800000 := by decide
  obtain ⟨hiff, -, hwithin⟩ := widensExactly_iff_room hextends
  exact ⟨hextends, hroom, hiff.1 hroom, hmemory, hwithin .workstation hmemory 1 _ hwide⟩

end Layout

end HalfPrecision
