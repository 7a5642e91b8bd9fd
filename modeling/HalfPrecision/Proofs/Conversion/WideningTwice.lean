import HalfPrecision.Proofs.Conversion.Widening

/-!
# Widening in two steps

Widening makes every denormal a normal number, so a second step meets only zeros, normal numbers,
infinities and NaNs. It needs no room below its exponents for any of these, and both ways end at the
one magnitude that has the value of the first pattern.
-/

namespace HalfPrecision.Layout

variable {A B C : Layout} {bits : Int}

/-- A finite pattern is widened to any magnitude that has its value. -/
theorem Extends.widenPattern_eq_signed (h : B.Extends A)
    (hroom : A.bias + A.mantissaBits ≤ B.bias) (hfinite : A.IsFinite bits) {magnitude : Nat}
    (hvalue : B.magnitudeValue magnitude = A.magnitudeValue (A.magnitudeBits bits)) :
    widenPattern A B bits = (B.signed (A.fields bits).sign magnitude : Nat) := by
  obtain ⟨widened, -, hpattern, hwidened, -⟩ := h.exists_widenPattern_eq hroom hfinite
  rw [hpattern, B.magnitudeValue_strictMono.injective (hwidened.trans hvalue.symm)]

/-- Without room for denormals, zeros and normal numbers still keep their values. -/
theorem Extends.exists_widenPattern_signed (h : C.Extends B) {sign magnitude : Nat}
    (hsign : sign < 2) (hlt : magnitude < B.infinity)
    (hnormal : magnitude ≠ 0 → B.hiddenBit ≤ magnitude) :
    ∃ wide, widenPattern B C (B.signed sign magnitude : Nat) = (C.signed sign wide : Nat) ∧
      C.magnitudeValue wide = B.magnitudeValue magnitude := by
  have hmag := hlt.trans B.infinity_lt_signMask
  have hfields := fields_signed_magnitude hsign hmag
  have hbits := magnitudeBits_signed hsign hmag
  rcases eq_or_ne magnitude 0 with rfl | hne
  · have hzero : widenPattern B C (B.signed sign 0 : Nat) = _ :=
      h.widenPattern_of_zero (by rw [hfields, Nat.zero_div]) (by rw [hfields, Nat.zero_mod])
    rw [hfields] at hzero
    exact ⟨0, hzero, by rw [magnitudeValue_zero, magnitudeValue_zero]⟩
  · have hexponent : (B.fields (B.signed sign magnitude : Nat)).exponent ≠ 0 := by
      rw [Ne, exponent_eq_zero_iff, hbits, not_lt]
      exact hnormal hne
    have hfinite : B.IsFinite (B.signed sign magnitude : Nat) := by
      rwa [isFinite_iff, hbits]
    obtain ⟨wide, -, hpattern, hvalue, -⟩ := h.exists_widenPattern_of_normal hexponent hfinite
    rw [hfields] at hpattern
    rw [hbits] at hvalue
    exact ⟨wide, hpattern, hvalue⟩

theorem Extends.widenPattern_widenPattern (hBA : B.Extends A) (hCB : C.Extends B)
    (hroom : A.bias + A.mantissaBits ≤ B.bias) (bits : Int) :
    widenPattern B C (widenPattern A B bits) = widenPattern A C bits := by
  have hsign := A.sign_lt bits
  have hCA := hCB.trans hBA
  by_cases hfinite : A.IsFinite bits
  · obtain ⟨magnitude, hlt, hfirst, hvalue, hnormal⟩ := hBA.exists_widenPattern_eq hroom hfinite
    have hpositive : magnitude ≠ 0 → B.hiddenBit ≤ magnitude := by
      intro hne
      apply hnormal
      intro hzero
      rw [hzero, magnitudeValue_zero, ← B.magnitudeValue_zero] at hvalue
      exact hne (B.magnitudeValue_strictMono.injective hvalue)
    obtain ⟨wide, hsecond, hwide⟩ := hCB.exists_widenPattern_signed hsign hlt hpositive
    rw [hfirst, hsecond]
    exact (hCA.widenPattern_eq_signed (hroom.trans hCB.bias_le) hfinite
      (hwide.trans hvalue)).symm
  · have htop : (A.fields bits).exponent = A.exponentMax := not_not.1 hfinite
    by_cases hzero : (A.fields bits).mantissa = 0
    · have hfields := fields_signed_magnitude hsign B.infinity_lt_signMask
      rw [infinity_eq, Nat.mul_div_cancel _ B.hiddenBit_pos, Nat.mul_mod_left,
        ← infinity_eq] at hfields
      rw [hBA.widenPattern_of_infinity htop hzero, hCA.widenPattern_of_infinity htop hzero,
        hCB.widenPattern_of_infinity (by rw [hfields]) (by rw [hfields]), hfields]
    · have hfields := fields_signed_magnitude hsign B.quietNan_lt_signMask
      have hnan : B.IsNaN (B.signed (A.fields bits).sign B.quietNan : Nat) := by
        rw [isNaN_iff, magnitudeBits_signed hsign B.quietNan_lt_signMask]
        exact B.infinity_lt_quietNan
      rw [widenPattern_of_isNaN ⟨htop, hzero⟩, widenPattern_of_isNaN ⟨htop, hzero⟩,
        widenPattern_of_isNaN hnan, hfields]

/-- Widening in two steps gives every pattern the word that one step gives it, if the first step has
room for the denormals. -/
theorem widen_widen {A B C : Layout} (hBA : B.Extends A) (hCB : C.Extends B)
    (hroom : A.bias + A.mantissaBits ≤ B.bias) (bits : Int) :
    ∃ middle wide : Nat, widen A B bits = .ok middle ∧ widen B C middle = .ok wide ∧
      widen A C bits = .ok wide ∧ wide < 2 ^ C.width := by
  have hCA := hCB.trans hBA
  obtain ⟨middle, hmiddle, hfirst, -⟩ := hBA.exists_widen_classify hroom bits
  obtain ⟨wide, hwide, hdirect, -⟩ := hCA.exists_widen_classify (hroom.trans hCB.bias_le) bits
  refine ⟨_, _, by rw [widen_eq_ok hBA, hfirst], ?_, by rw [widen_eq_ok hCA, hdirect],
    signed_lt (A.sign_lt bits) hwide⟩
  rw [widen_eq_ok hCB, ← hfirst, hBA.widenPattern_widenPattern hCB hroom, hdirect]

/-- The greatest negative denormal of the halves, and a NaN that is given as a negative integer. -/
theorem widen_widen_half_single_double :
    single.Extends half ∧ double.Extends single ∧
      half.bias + half.mantissaBits ≤ single.bias ∧
      (∃ middle : Nat, widen half single 0x8001 = .ok middle ∧
        widen single double middle = .ok 0xBE70000000000000) ∧
      ∃ middle : Nat, widen half single (-1) = .ok middle ∧
        widen single double middle = .ok 0xFFF8000000000000 := by
  have hfirst : single.Extends half := by decide
  have hsecond : double.Extends single := by decide
  have hroom : half.bias + half.mantissaBits ≤ single.bias := by decide
  have hdenormal : widen half double 0x8001 = .ok 0xBE70000000000000 := by decide
  have hnan : widen half double (-1) = .ok 0xFFF8000000000000 := by decide
  obtain ⟨middle, wide, hmiddle, hwide, hdirect, -⟩ :=
    widen_widen hfirst hsecond hroom 0x8001
  obtain ⟨middle', wide', hmiddle', hwide', hdirect', -⟩ :=
    widen_widen hfirst hsecond hroom (-1)
  refine ⟨hfirst, hsecond, hroom, ⟨middle, hmiddle, ?_⟩, ⟨middle', hmiddle', ?_⟩⟩
  · rw [hwide, ← hdirect, hdenormal]
  · rw [hwide', ← hdirect', hnan]

-- The denormals of the second layout have no room in the third, but none of them is met.
example :
    (widen half { name := "longer half", exponentBits := 6, mantissaBits := 12 } 0x8001).bind
        (widen { name := "longer half", exponentBits := 6, mantissaBits := 12 }
          { name := "longest half", exponentBits := 6, mantissaBits := 20 }) =
      widen half { name := "longest half", exponentBits := 6, mantissaBits := 20 } 0x8001 := by
  decide

end HalfPrecision.Layout
