import HalfPrecision.Proofs.Conversion.Widening
import HalfPrecision.Proofs.Layout.Masks

/-!
# The end of normalising

Widening normalises the mantissas of denormals, and nothing else. So it may be done by any way of
normalising that is right for them, even if that has no end for zero. A normalised mantissa has the
hidden bit as its leading one; when that is taken off and the rest is padded and joined, no bit of the
mantissa is lost, whatever the exponent has become.
-/

namespace HalfPrecision.Layout

variable {S T : Layout}

/-- The parts in `T` of a pattern of `S`, by a way of normalising that may have no end: it gives the
raised number and how often it was doubled, or nothing. -/
def widenPartsBy (normalise : Nat → Option (Nat × Nat)) (S T : Layout) (bits : Int) :
    Option WideParts :=
  let fields := S.fields bits
  let sign := fields.sign
  let grow := T.mantissaBits - S.mantissaBits
  if fields.exponent = 0 then
    if fields.mantissa = 0 then some { sign, exponent := 0, significand := 0, places := grow }
    else
      (normalise fields.mantissa).map fun (raised, doublings) =>
        { sign
          exponent := 1 - S.bias + T.bias - doublings
          significand := raised % S.hiddenBit
          places := grow }
  else if fields.exponent = S.exponentMax then
    some {
      sign
      exponent := T.exponentMax
      significand := if fields.mantissa = 0 then 0 else 1
      places := T.mantissaBits - 1 }
  else
    some {
      sign
      exponent := fields.exponent - S.bias + T.bias
      significand := fields.mantissa
      places := grow }

/-- Ways of normalising that agree on the mantissas of denormals widen alike. -/
theorem widenPartsBy_congr {normalise normalise' : Nat → Option (Nat × Nat)}
    (h : ∀ m, 0 < m → m < S.hiddenBit → normalise m = normalise' m) (bits : Int) :
    widenPartsBy normalise S T bits = widenPartsBy normalise' S T bits := by
  simp only [widenPartsBy]
  by_cases hm : (S.fields bits).mantissa = 0
  · simp only [if_pos hm]
  · rw [h _ (Nat.pos_of_ne_zero hm) (S.mantissa_lt bits)]

theorem widenPartsBy_raiseToBit (S T : Layout) (bits : Int) :
    widenPartsBy (fun m => some (raiseToBit S.mantissaBits S.mantissaBits m)) S T bits =
      some (widenParts S T bits) := by
  simp only [widenPartsBy, widenParts, Option.map_some]
  split_ifs <;> rfl

/-- Widening ends if doubling ends for the mantissas of denormals. -/
theorem widenPartsBy_eq_some {normalise : Nat → Option (Nat × Nat)}
    (h : ∀ m raised doublings, 0 < m → m < S.hiddenBit →
      RaisedTo S.mantissaBits m raised doublings → normalise m = some (raised, doublings))
    (bits : Int) : widenPartsBy normalise S T bits = some (widenParts S T bits) := by
  rw [← widenPartsBy_raiseToBit]
  apply widenPartsBy_congr
  intro m hm hlt
  have hraised := raisedTo_hiddenBit hm.ne' hlt
  rw [h m _ _ hm hlt hraised, hraised.raiseToBit_eq (Nat.sub_le _ _)]

/-- With the hidden bit put back, a widened denormal has its whole mantissa, raised and padded. -/
theorem Extends.hiddenBit_add_mantissa_widenPattern (h : T.Extends S) {bits : Int}
    (he : (S.fields bits).exponent = 0) (hm : (S.fields bits).mantissa ≠ 0) :
    T.hiddenBit + (T.fields (widenPattern S T bits)).mantissa =
      (S.fields bits).mantissa * 2 ^ (S.mantissaBits - (S.fields bits).mantissa.log2) *
        2 ^ (T.mantissaBits - S.mantissaBits) := by
  obtain ⟨hlow, hhigh⟩ := mul_two_pow_sub_log2 hm (S.mantissa_lt bits)
  rw [← hiddenBit] at hlow hhigh
  rw [widenPattern_of_denormal he hm rfl, T.mantissa_compose _ _ (h.padded_lt (by omega)),
    h.hiddenBit_eq, ← Nat.add_mul, Nat.add_sub_cancel' hlow]

/-- A number below the hidden bit is doubled once for each place that its leading bit is short of the
hidden one, and then has the hidden bit as its leading one; zero would be doubled without end.
Widening normalises numbers below the hidden bit other than zero, and no others, so it ends for every
integer. It keeps all bits of a normalised mantissa. -/
theorem normalising_ends (S : Layout) :
    (∀ m, 0 < m → m < S.hiddenBit →
      (∀ raised doublings, RaisedTo S.mantissaBits m raised doublings ↔
        raised = m * 2 ^ doublings ∧ doublings = S.mantissaBits - m.log2) ∧
        S.hiddenBit ≤ m * 2 ^ (S.mantissaBits - m.log2) ∧
          m * 2 ^ (S.mantissaBits - m.log2) < 2 * S.hiddenBit) ∧
    (∀ raised doublings, ¬ RaisedTo S.mantissaBits 0 raised doublings) ∧
    (∀ (T : Layout) (normalise : Nat → Option (Nat × Nat)),
      (∀ m raised doublings, 0 < m → m < S.hiddenBit →
        RaisedTo S.mantissaBits m raised doublings → normalise m = some (raised, doublings)) →
      ∀ bits : Int, widenPartsBy normalise S T bits = some (widenParts S T bits)) ∧
    (∀ (T : Layout) (bits : Int), T.Extends S → (S.fields bits).exponent = 0 →
      (S.fields bits).mantissa ≠ 0 →
        T.hiddenBit + (T.fields (widenPattern S T bits)).mantissa =
          (S.fields bits).mantissa * 2 ^ (S.mantissaBits - (S.fields bits).mantissa.log2) *
            2 ^ (T.mantissaBits - S.mantissaBits)) := by
  refine ⟨?_, ?_, ?_, ?_⟩
  · intro m hm hlt
    refine ⟨?_, mul_two_pow_sub_log2 hm.ne' hlt⟩
    have hends := raisedTo_hiddenBit hm.ne' hlt
    intro raised doublings
    constructor
    · intro h
      obtain ⟨rfl, rfl⟩ := hends.unique h
      exact ⟨rfl, rfl⟩
    · rintro ⟨rfl, rfl⟩
      exact hends
  · intro raised doublings h
    exact h.mod_ne_zero (Nat.zero_mod _)
  · intro T normalise h
    exact widenPartsBy_eq_some h
  · intro T bits hT he hm
    exact hT.hiddenBit_add_mantissa_widenPattern he hm

/-- The third denormal of the halves is doubled nine times, by a way of normalising that has nothing
for zero. -/
theorem normalising_ends_half :
    0 < 3 ∧ 3 < half.hiddenBit ∧ RaisedTo 10 3 1536 9 ∧
      (∀ raised doublings, ¬ RaisedTo 10 0 raised doublings) ∧
        widenPartsBy (fun m => if m = 0 then none else some (raiseToBit 10 10 m)) half double 3 =
          some (widenParts half double 3) ∧
          double.hiddenBit + (double.fields (widenPattern half double 3)).mantissa =
            1536 * 2 ^ 42 := by
  obtain ⟨hends, hzero, hwidens, hkept⟩ := normalising_ends half
  have hthree : 0 < 3 ∧ 3 < half.hiddenBit := by decide
  have hlog : half.mantissaBits - Nat.log2 3 = 9 := by decide
  refine ⟨hthree.1, hthree.2, ?_, hzero, ?_, ?_⟩
  · exact ((hends 3 hthree.1 hthree.2).1 1536 9).2 ⟨by decide, hlog.symm⟩
  · apply hwidens double
    intro m raised doublings hm hlt h
    obtain ⟨-, hcount⟩ := ((hends m hm hlt).1 raised doublings).1 h
    rw [if_neg hm.ne']
    exact congrArg some (h.raiseToBit_eq (hcount.trans_le (Nat.sub_le _ _)))
  · exact hkept double 3 (by decide) (by decide) (by decide)

end HalfPrecision.Layout
