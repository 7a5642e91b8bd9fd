import HalfPrecision.Proofs.Conversion.Nearest
import HalfPrecision.Proofs.Conversion.RoundingTwice

/-!
# Narrowing what was rounded to even

A number that was rounded to a layout, a tie going to the even pattern, is narrowed to the layout
below. Where the layouts are far enough apart this is rounding at once, except for the numbers just
below a midpoint that the first rounding takes up to it: these go to the greater neighbour.
-/

namespace HalfPrecision.Layout

variable {A B C : Layout} {bits : Int}

/-- Whether a number lies below the midpoint above a magnitude of `C` and was rounded to a pattern
of `B` for that midpoint. -/
def IsRaisedToMidpoint (B C : Layout) (v : Rat) (pattern : Int) (magnitude : Nat) : Prop :=
  magnitude < C.infinity ∧ |B.value pattern| = C.midpoint magnitude ∧ |v| < C.midpoint magnitude

section Numbers

variable {v : Rat} {pattern : Int} (h : B.Extends C) (hfar : C.bias + C.mantissaBits + 1 ≤ B.bias)
  (hfirst : B.IsNearest |v| (B.magnitudeBits pattern))

include h hfar hfirst

/-- What is raised to a midpoint is narrowed to its greater neighbour. -/
theorem narrowed_of_isRaisedToMidpoint {magnitude : Nat}
    (hraised : IsRaisedToMidpoint B C v pattern magnitude) :
    narrowed B C (B.magnitudeBits pattern) = magnitude + 1 := by
  obtain ⟨hlt, hmid, -⟩ := hraised
  rw [abs_value] at hmid
  have hnear := isNearestAway_narrowed_of_far h hfar hfirst.1
  rw [hmid] at hnear
  exact hnear.unique (isNearestAway_midpoint hlt)

/-- What is raised to no midpoint is narrowed to the magnitude nearest to it. -/
theorem isNearestAway_narrowed_of_not_raised
    (hnot : ∀ magnitude, ¬ IsRaisedToMidpoint B C v pattern magnitude) :
    C.IsNearestAway |v| (narrowed B C (B.magnitudeBits pattern)) := by
  obtain ⟨direct, hdirect⟩ := C.exists_isNearestAway |v|
  have hsecond := isNearestAway_narrowed_of_far h hfar hfirst.1
  obtain ⟨hsame | hnext, hiff⟩ := hfirst.twice h hfar hdirect hsecond
  · rwa [hsame]
  · refine absurd ?_ (hnot direct)
    rw [IsRaisedToMidpoint, abs_value]
    exact hiff.1 hnext

end Numbers

section Patterns

theorem narrowPattern_convertToEven_eq_signed :
    narrowPattern B C (A.convertToEven B bits) =
      C.signed (A.fields bits).sign (narrowed B C (convertedMagnitude A B bits)) := by
  rw [narrowPattern_eq_signed, sign_convertToEven, magnitudeBits_convertToEven]

/-- Infinities and NaNs are not rounded. -/
theorem narrowed_convertedMagnitude_of_not_isFinite (hfinite : ¬ A.IsFinite bits) :
    narrowed B C (convertedMagnitude A B bits) = narrowed A C (A.magnitudeBits bits) := by
  have htop : (A.fields bits).exponent = A.exponentMax := not_not.1 hfinite
  by_cases hzero : (A.fields bits).mantissa = 0
  · have hbits : A.magnitudeBits bits = A.infinity := by
      rw [magnitudeBits_eq, htop, hzero, Nat.add_zero, infinity_eq]
    rw [convertedMagnitude_of_infinity htop hzero, hbits, narrowed_infinity, narrowed_infinity]
  · have hnan := (A.isNaN_iff bits).1 ⟨htop, hzero⟩
    rw [convertedMagnitude_of_isNaN ⟨htop, hzero⟩,
      narrowed_of_infinity_lt hnan (A.magnitudeBits_lt bits),
      narrowed_of_infinity_lt B.infinity_lt_quietNan B.quietNan_lt_signMask]

/-- Infinities and NaNs are not narrowed to numbers. -/
theorem infinity_le_narrowed (hfinite : ¬ A.IsFinite bits) :
    C.infinity ≤ narrowed A C (A.magnitudeBits bits) := by
  rw [isFinite_iff, not_lt] at hfinite
  rcases Nat.lt_or_eq_of_le hfinite with hnan | heq
  · rw [narrowed_of_infinity_lt hnan (A.magnitudeBits_lt bits)]
    exact C.infinity_lt_quietNan.le
  · rw [← heq, narrowed_infinity]

variable (hAB : A.Extends B) (hBC : B.Extends C) (hfar : C.bias + C.mantissaBits + 1 ≤ B.bias)

include hAB hBC hfar

/-- Finite magnitudes go where they go at once, or to the next magnitude. -/
theorem Extends.narrowed_convertedMagnitude (hfinite : A.IsFinite bits) :
    (narrowed B C (convertedMagnitude A B bits) = narrowed A C (A.magnitudeBits bits) ∨
      narrowed B C (convertedMagnitude A B bits) = narrowed A C (A.magnitudeBits bits) + 1) ∧
    (narrowed B C (convertedMagnitude A B bits) = narrowed A C (A.magnitudeBits bits) + 1 ↔
      IsRaisedToMidpoint B C (A.value bits) (A.convertToEven B bits)
        (narrowed A C (A.magnitudeBits bits))) := by
  have hfirst := (isNearestEven_convertedMagnitude (T := B) hfinite).isNearest
  have hdirect := isNearestAway_narrowed_of_far (hAB.trans hBC) (hfar.trans hAB.bias_le)
    ((A.isFinite_iff bits).1 hfinite).le
  have hsecond := isNearestAway_narrowed_of_far hBC hfar hfirst.1
  rw [← abs_value] at hdirect
  rw [IsRaisedToMidpoint, abs_value, magnitudeBits_convertToEven]
  exact hfirst.twice hBC hfar hdirect hsecond

/-- Narrowing a pattern that was rounded to even keeps its sign and gives what narrowing gives at
once, unless the pattern was raised to a midpoint; then it gives the next magnitude. -/
theorem Extends.narrowPattern_convertToEven {direct second : Nat}
    (hdirect : narrowPattern A C bits = direct)
    (hsecond : narrowPattern B C (A.convertToEven B bits) = second) :
    (C.fields second).sign = (C.fields direct).sign ∧
      (IsRaisedToMidpoint B C (A.value bits) (A.convertToEven B bits) (C.magnitudeBits direct) →
        C.magnitudeBits second = C.magnitudeBits direct + 1) ∧
      (¬ IsRaisedToMidpoint B C (A.value bits) (A.convertToEven B bits) (C.magnitudeBits direct) →
        second = direct) := by
  have hAC := hAB.trans hBC
  subst hdirect hsecond
  rw [sign_narrowPattern hBC, sign_narrowPattern hAC, sign_convertToEven,
    magnitudeBits_narrowPattern hBC, magnitudeBits_narrowPattern hAC, magnitudeBits_convertToEven,
    narrowPattern_convertToEven_eq_signed, narrowPattern_eq_signed]
  refine ⟨rfl, ?_⟩
  by_cases hfinite : A.IsFinite bits
  · obtain ⟨heither, hiff⟩ := hAB.narrowed_convertedMagnitude hBC hfar hfinite
    exact ⟨hiff.2, fun hnot => by rw [heither.resolve_right (hiff.not.2 hnot)]⟩
  · have hsame := narrowed_convertedMagnitude_of_not_isFinite (B := B) (C := C) hfinite
    refine ⟨?_, fun _ => by rw [hsame]⟩
    rintro ⟨hlt, -⟩
    exact absurd hlt (infinity_le_narrowed hfinite).not_gt

end Patterns

end HalfPrecision.Layout
