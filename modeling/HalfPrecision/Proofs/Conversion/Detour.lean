import HalfPrecision.Proofs.Conversion.Flushing
import HalfPrecision.Proofs.Conversion.RoundTrip

/-!
# Narrowing after widening

A pattern that is widened with its value and then narrowed has the number nearest to it, and so it
has if it is narrowed at once, unless a denormal is flushed that is not nearest to zero. So for three
layouts that are far enough apart the detour through the widest one changes nothing, for zeros,
infinities and NaNs as well.
-/

namespace HalfPrecision.Layout

variable {A B C : Layout}

/-- A detour through exact widening is no detour. -/
theorem Extends.narrowPattern_widenPattern_eq (hCB : C.Extends B) (hBA : B.Extends A)
    (hroom : B.bias + B.mantissaBits ≤ C.bias) (hfar : A.bias + A.mantissaBits + 1 ≤ B.bias)
    (bits : Int) :
    narrowPattern C A (widenPattern B C bits) = narrowPattern B A bits := by
  by_cases hfinite : B.IsFinite bits
  · obtain ⟨magnitude, hpattern, hnear⟩ :=
      hCB.exists_narrowPattern_widenPattern_eq (hCB.trans hBA) hroom hfinite
    have hdirect := isNearestAway_narrowMagnitude_of_far hBA hfar hfinite
    rw [abs_value] at hdirect
    rw [hpattern, narrowPattern, hnear.unique hdirect]
  · have htop : (B.fields bits).exponent = B.exponentMax := not_not.1 hfinite
    by_cases hzero : (B.fields bits).mantissa = 0
    · rw [hCB.narrowPattern_widenPattern_of_infinity htop hzero, narrowPattern, htop, hzero,
        narrowMagnitude_infinity]
    · rw [narrowPattern_widenPattern_of_isNaN ⟨htop, hzero⟩, narrowPattern, htop,
        narrowMagnitude_nan hzero]

/-- Narrowing at once and narrowing after exact widening agree on every pattern, where denormals are
flushed to the nearest number. So the half of a single is the half of the double equal to it. -/
theorem narrow_widen_eq_narrow :
    (∀ {A B C : Layout}, C.Extends B → B.Extends A → B.bias + B.mantissaBits ≤ C.bias →
      A.bias + A.mantissaBits + 1 ≤ B.bias →
        ∀ bits, (widen B C bits).bind (narrow C A) = narrow B A bits) ∧
    ∀ bits, (widen single double bits).map halfOfDouble = .ok (halfOfSingle bits) := by
  constructor
  · intro A B C hCB hBA hroom hfar bits
    rw [widen_eq_ok hCB, Except.bind, narrow_eq_ok (hCB.trans hBA), narrow_eq_ok hBA,
      hCB.narrowPattern_widenPattern_eq hBA hroom hfar]
  · intro bits
    have hagree := single_extends_double.narrowPattern_widenPattern_eq half_extends_single
      (by decide) (by decide) bits
    rw [widen_eq_ok single_extends_double, Except.map, halfOfDouble, hagree, halfOfSingle]

/-- A single denormal, which is flushed on the one way and normalised on the other, and a NaN. -/
theorem narrow_widen_eq_narrow_half_single_double :
    double.Extends single ∧ single.Extends half ∧
      single.bias + single.mantissaBits ≤ double.bias ∧
        half.bias + half.mantissaBits + 1 ≤ single.bias ∧
          (widen single double 0x807FFFFF).bind (narrow double half) = .ok 0x8000 ∧
            (widen single double 0xFF812345).bind (narrow double half) = .ok 0xFE00 :=
  have hwide : double.Extends single := by decide
  have hnarrow : single.Extends half := by decide
  have hroom : single.bias + single.mantissaBits ≤ double.bias := by decide
  have hfar : half.bias + half.mantissaBits + 1 ≤ single.bias := by decide
  have hagree := narrow_widen_eq_narrow.1 hwide hnarrow hroom hfar
  ⟨hwide, hnarrow, hroom, hfar, (hagree 0x807FFFFF).trans (by decide),
    (hagree 0xFF812345).trans (by decide)⟩

end HalfPrecision.Layout
