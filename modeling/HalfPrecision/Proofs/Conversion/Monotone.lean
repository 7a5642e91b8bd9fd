import HalfPrecision.Proofs.Conversion.Magnitude
import HalfPrecision.Proofs.Layout.Order

/-!
# Narrowing keeps the order

Narrowing keeps the signs and the order of the magnitudes, so it keeps the order of all patterns
that are no NaNs.
-/

namespace HalfPrecision.Layout

section Narrowed

variable {S T : Layout} (h : S.Extends T)

include h

theorem signedMagnitude_narrowPattern (bits : Int) :
    T.signedMagnitude (narrowPattern S T bits) =
      if (S.fields bits).sign = 0 then (narrowed S T (S.magnitudeBits bits) : Int)
      else -narrowed S T (S.magnitudeBits bits) := by
  rw [signedMagnitude, sign_narrowPattern h, magnitudeBits_narrowPattern h]

/-- Narrowing keeps the order of the magnitudes with their signs. -/
theorem signedMagnitude_narrowPattern_mono {p q : Int} (hp : ¬ S.IsNaN p) (hq : ¬ S.IsNaN q)
    (hle : S.signedMagnitude p ≤ S.signedMagnitude q) :
    T.signedMagnitude (narrowPattern S T p) ≤ T.signedMagnitude (narrowPattern S T q) := by
  rw [isNaN_iff, not_lt] at hp hq
  rw [signedMagnitude_narrowPattern h, signedMagnitude_narrowPattern h]
  by_cases hsp : (S.fields p).sign = 0 <;> by_cases hsq : (S.fields q).sign = 0 <;>
    simp only [signedMagnitude, hsp, hsq, if_true, if_false] at hle ⊢
  · exact Int.ofNat_le.2 (narrowed_mono h (Int.ofNat_le.1 hle) hq)
  · -- Only the zeros have both signs.
    have hp : S.magnitudeBits p = 0 := by omega
    have hq : S.magnitudeBits q = 0 := by omega
    rw [hp, hq, narrowed_of_lt_hiddenBit S.hiddenBit_pos]
    exact le_rfl
  · omega
  · have hle' := Int.ofNat_le.1 (Int.neg_le_neg_iff.1 hle)
    exact Int.neg_le_neg (Int.ofNat_le.2 (narrowed_mono h hle' hp))

end Narrowed

/-- Narrowing keeps the order of the patterns that are no NaNs, which is that of their values, and
on the patterns from zero to infinity the order of the numbers that they are. -/
theorem narrow_monotone {S T : Layout} (h : S.Extends T) :
    (∀ p q, ¬ S.IsNaN p → ¬ S.IsNaN q → S.extendedValue p ≤ S.extendedValue q →
      ∃ p' q' : Nat, narrow S T p = .ok p' ∧ narrow S T q = .ok q' ∧
        ¬ T.IsNaN p' ∧ ¬ T.IsNaN q' ∧ T.extendedValue p' ≤ T.extendedValue q') ∧
    ∀ p q : Nat, p ≤ q → q ≤ S.infinity →
      ∃ p' q' : Nat, narrow S T p = .ok p' ∧ narrow S T q = .ok q' ∧ p' ≤ q' := by
  constructor
  · intro p q hp hq hle
    have hp' := (isNaN_narrowPattern_iff h p).not.2 hp
    have hq' := (isNaN_narrowPattern_iff h q).not.2 hq
    refine ⟨_, _, narrow_eq_ok h p, narrow_eq_ok h q, hp', hq', ?_⟩
    rw [extendedValue_le_iff hp' hq']
    exact signedMagnitude_narrowPattern_mono h hp hq ((extendedValue_le_iff hp hq).1 hle)
  · intro p q hle hinfinity
    refine ⟨_, _, narrow_eq_ok h p, narrow_eq_ok h q, ?_⟩
    rw [narrowPattern_natCast (hle.trans hinfinity), narrowPattern_natCast hinfinity]
    exact narrowed_mono h hle hinfinity

/-- The negative infinity lies below a denormal that is flushed to the negative zero, and the first
single that goes to infinity above the last one that does not. -/
theorem narrow_monotone_single_half :
    single.Extends half ∧
      (¬ single.IsNaN 0xFF800000 ∧ ¬ single.IsNaN 0x80000001 ∧
        single.extendedValue 0xFF800000 ≤ single.extendedValue 0x80000001 ∧
        narrow single half 0xFF800000 = .ok 0xFC00 ∧ narrow single half 0x80000001 = .ok 0x8000 ∧
          half.extendedValue 0xFC00 ≤ half.extendedValue 0x8000) ∧
      0x477FF000 ≤ single.infinity ∧ narrow single half (0x477FEFFF : Nat) = .ok 0x7BFF ∧
        narrow single half (0x477FF000 : Nat) = .ok 0x7C00 ∧ 0x7BFF ≤ 0x7C00 := by
  have hextends : single.Extends half := by decide
  obtain ⟨hvalues, hpatterns⟩ := narrow_monotone hextends
  refine ⟨hextends, ?_, by decide, ?_⟩
  · have hp : ¬ single.IsNaN 0xFF800000 := by decide
    have hq : ¬ single.IsNaN 0x80000001 := by decide
    have hle : single.extendedValue 0xFF800000 ≤ single.extendedValue 0x80000001 :=
      (extendedValue_le_iff hp hq).2 (by decide)
    have hlow : narrow single half 0xFF800000 = .ok 0xFC00 := by decide
    have hhigh : narrow single half 0x80000001 = .ok 0x8000 := by decide
    obtain ⟨p, q, hnarrowp, hnarrowq, -, -, hnarrowed⟩ := hvalues _ _ hp hq hle
    obtain rfl : 0xFC00 = p := Except.ok.inj (hlow.symm.trans hnarrowp)
    obtain rfl : 0x8000 = q := Except.ok.inj (hhigh.symm.trans hnarrowq)
    exact ⟨hp, hq, hle, hlow, hhigh, hnarrowed⟩
  · have hlow : narrow single half (0x477FEFFF : Nat) = .ok 0x7BFF := by decide
    have hhigh : narrow single half (0x477FF000 : Nat) = .ok 0x7C00 := by decide
    obtain ⟨p, q, hnarrowp, hnarrowq, hle⟩ :=
      hpatterns 0x477FEFFF 0x477FF000 (by decide) (by decide)
    obtain rfl : 0x7BFF = p := Except.ok.inj (hlow.symm.trans hnarrowp)
    obtain rfl : 0x7C00 = q := Except.ok.inj (hhigh.symm.trans hnarrowq)
    exact ⟨hlow, hhigh, hle⟩

end HalfPrecision.Layout
