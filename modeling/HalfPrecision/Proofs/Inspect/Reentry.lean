import HalfPrecision.Inspect.Display
import HalfPrecision.Proofs.Conversion.Decoding
import HalfPrecision.Proofs.Decimal.Notation
import HalfPrecision.Proofs.Decimal.SixDigits
import HalfPrecision.Proofs.Inspect.DecimalEntry

/-!
# Displayed values entered again

What is displayed for a double is the text of a number or a word, and it is entered as it stands. A
zero, an infinity and a NaN are entered as themselves; a normal double is entered as the double that
stands in for it, which is displayed in the same way.
-/

namespace HalfPrecision.Inspect

open Text Layout
open Decimal (minusIf signText_minusIf)

variable {v b : Nat} {s : List Char} {negative : Bool} {q : Rat}

/-- A number has no blanks around it. -/
theorem strip_of_numberText (h : Decimal.NumberText s negative q) : strip s = s := by
  apply trim_eq_self
  intro c hc
  obtain hmark | ⟨d, hd⟩ := h.isNumberCharacter c hc
  · have hmarks : ['_', '+', '-', '.', 'e', 'E'].all (!isBlank ·) := by decide
    simpa using List.all_eq_true.1 hmarks c hmark
  · exact isBlank_of_hexValue? (by rw [hexValue?, hd, Option.some_or])

section Display

/-- Whether a double has a minus sign. -/
def isNegative (v : Nat) : Bool := (double.fields v).sign = 1

theorem toNat_isNegative (v : Nat) : (isNegative v).toNat = (double.fields v).sign := by
  have hlt := double.sign_lt v
  obtain hsign | hsign : (double.fields v).sign = 0 ∨ (double.fields v).sign = 1 := by
    omega
  all_goals
    rw [isNegative, hsign]
    rfl

theorem scalarText_eq (hv : double.classify v ≠ .nan) :
    scalarText v = minusIf (isNegative v) ++ magnitudeText v := by
  unfold scalarText minusIf isNegative
  simp only [hv, ne_eq, not_false_eq_true, decide_true, Bool.and_true]
  split <;> rfl

/-- The fraction whose digits are displayed. -/
def shown (v : Nat) : Fraction :=
  double.magnitude (double.fields v).exponent (double.fields v).mantissa

theorem toRat_shown (v : Nat) :
    (shown v).toRat = double.magnitudeValue (double.magnitudeBits v) := by
  rw [shown, double.toRat_magnitude (double.mantissa_lt v), magnitudeBits_eq]

theorem magnitudeText_eq (hpos : 0 < double.magnitudeBits v)
    (hlt : double.magnitudeBits v < double.infinity) :
    magnitudeText v = valueFormat.write (shown v) := by
  unfold magnitudeText
  cases hclass : double.classify v with
  | zero => exact absurd ((classify_eq_zero_iff _ _).1 hclass) hpos.ne'
  | denormal => rfl
  | normal => rfl
  | infinity => exact absurd ((classify_eq_infinity_iff _ _).1 hclass) hlt.ne
  | nan => exact absurd ((classify_eq_nan_iff _ _).1 hclass) hlt.not_gt

/-- A double that differs from another one in its digits alone is displayed in the same way. -/
theorem formatScalar_congr (hv : double.classify v ≠ .nan) (hb : double.classify b ≠ .nan)
    (hsign : (double.fields b).sign = (double.fields v).sign)
    (hmagnitude : magnitudeText b = magnitudeText v) : formatScalar b = formatScalar v := by
  rw [formatScalar, formatScalar, scalarText_eq hv, scalarText_eq hb, isNegative, hsign, hmagnitude]
  rfl

theorem numberText_of_zero (hv : double.classify v = .zero) :
    Decimal.NumberText (scalarText v) (isNegative v) ((-1) ^ (isNegative v).toNat * 0) := by
  have hnan : double.classify v ≠ .nan := hv.trans_ne (by decide)
  have hzero : magnitudeText v = ['0'] ++ [] := by rw [magnitudeText, hv]; rfl
  have hdigit : digitValue? '0' = some 0 := by decide
  rw [scalarText_eq hnan, hzero]
  convert Decimal.NumberText.mk (signText_minusIf _) (.whole (.one hdigit)) .absent using 2
  simp [ofDigits]

theorem num_shown_ne_zero (hpos : 0 < double.magnitudeBits v) : (shown v).num ≠ 0 := by
  intro hzero
  have hvalue := double.magnitudeValue_strictMono hpos
  rw [magnitudeValue_zero, ← toRat_shown, Fraction.toRat_of_num_eq_zero _ hzero] at hvalue
  exact lt_irrefl _ hvalue

theorem numberText_of_normal (hpos : 0 < double.magnitudeBits v)
    (hlt : double.magnitudeBits v < double.infinity) {n : Nat} {exponent : Int}
    (hdigits : Decimal.significant 6 (shown v) = (n, exponent)) :
    Decimal.NumberText (scalarText v) (isNegative v)
      ((-1) ^ (isNegative v).toNat * Decimal.digitsValue 6 n exponent) := by
  have hnan : double.classify v ≠ .nan := (classify_eq_nan_iff _ _).not.2 hlt.not_gt
  have h := Decimal.isSignificant_significant (by decide : 0 < 6) (num_shown_ne_zero hpos)
  rw [hdigits] at h
  rw [scalarText_eq hnan, magnitudeText_eq hpos hlt]
  exact valueFormat.numberText_write (by decide) hdigits h.le h.lt (signText_minusIf _)

end Display

section Entry

theorem parse_of_numberText (h : Decimal.NumberText (scalarText v) negative q) (L : Layout) :
    ∃ b < 2 ^ double.width, parse (formatScalar v) L = .ok (b, .double) ∧
      (double.fields b).sign = negative.toNat ∧
      double.IsNearestEven |q| (double.magnitudeBits b) := by
  obtain ⟨b, hlt, hread, hsign, hnear⟩ := exists_ofText_eq_ok h
  refine ⟨b, hlt, ?_, hsign, hnear⟩
  rw [parse, formatScalar, String.toList_ofList, strip_of_numberText h, hread]

/-- A double that is entered where another one was displayed, and is displayed in the same way. Where
that is a number other than zero, it has its sign and almost its value. -/
structure IsReentered (v b : Nat) : Prop where
  lt : b < 2 ^ double.width
  text : formatScalar b = formatScalar v
  close : double.IsFinite v → double.value v ≠ 0 →
    (double.fields b).sign = (double.fields v).sign ∧
      double.IsFinite b ∧
      |double.value b - double.value v| ≤ 5.000001e-6 * |double.value v|

theorem reentered_of_zero (hv : double.classify v = .zero) (L : Layout) :
    ∃ b, parse (formatScalar v) L = .ok (b, .double) ∧ IsReentered v b := by
  have hzero := (classify_eq_zero_iff _ _).1 hv
  obtain ⟨b, hlt, hparse, hsign, hnear⟩ := parse_of_numberText (numberText_of_zero hv) L
  rw [toNat_isNegative] at hsign
  rw [mul_zero, abs_zero, ← double.magnitudeValue_zero] at hnear
  have hmagnitude := hnear.isNearest.eq_of_magnitudeValue (Nat.zero_le _)
  have hb := (classify_eq_zero_iff _ _).2 hmagnitude
  refine ⟨b, hparse, hlt, ?_, fun _ hne => absurd ?_ hne⟩
  · refine formatScalar_congr (hv.trans_ne (by decide)) (hb.trans_ne (by decide)) hsign ?_
    rw [magnitudeText, magnitudeText, hv, hb]
  · rw [value, hzero, magnitudeValue_zero, mul_zero]

theorem reentered_of_normal (hv : double.classify v = .normal) (L : Layout) :
    ∃ b, parse (formatScalar v) L = .ok (b, .double) ∧ IsReentered v b := by
  obtain ⟨hlow, hhigh⟩ := (classify_eq_normal_iff _ _).1 hv
  have hpos := double.hiddenBit_pos.trans_le hlow
  obtain ⟨n, exponent, hdigits⟩ :
    ∃ n exponent, Decimal.significant 6 (shown v) = (n, exponent) := ⟨_, _, rfl⟩
  obtain ⟨b, hlt, hparse, hsign, hnear⟩ :=
    parse_of_numberText (numberText_of_normal hpos hhigh hdigits) L
  have hnonneg : 0 ≤ Decimal.digitsValue 6 n exponent := by
    rw [Decimal.digitsValue]
    positivity
  rw [abs_mul, abs_neg_one_pow, one_mul, abs_of_nonneg hnonneg] at hnear
  have hstands : Decimal.StandsFor (double.magnitudeBits b) (shown v) := by
    have hmono := double.magnitudeValue_strictMono.monotone
    refine Decimal.standsFor_of_isNearest (num_shown_ne_zero hpos) ?_ ?_ hdigits hnear.isNearest
    · rw [toRat_shown]
      exact hmono hlow
    · rw [toRat_shown]
      exact hmono (Nat.le_sub_one_of_lt hhigh)
  rw [toNat_isNegative] at hsign
  refine ⟨b, hparse, hlt, ?_, fun _ _ => ⟨hsign, ?_, ?_⟩⟩
  · have hb := (classify_eq_nan_iff double b).not.2 hstands.lt.not_gt
    refine formatScalar_congr (hv.trans_ne (by decide)) hb hsign ?_
    rw [magnitudeText_eq hstands.pos hstands.lt, magnitudeText_eq hpos hhigh]
    exact valueFormat.write_congr (hstands.digits (shown b) (toRat_shown b))
  · exact (double.isFinite_iff _).2 hstands.lt
  · have hclose := hstands.near
    rw [toRat_shown] at hclose
    rwa [abs_value, value, value, hsign, ← mul_sub, abs_mul, abs_neg_one_pow, one_mul]

theorem reentered_of_infinity (hv : double.classify v = .infinity) (L : Layout) :
    ∃ b, parse (formatScalar v) L = .ok (b, .double) ∧ IsReentered v b := by
  have hmagnitude := (classify_eq_infinity_iff _ _).1 hv
  have hmask := double.infinity_lt_signMask
  have hsign := double.sign_lt v
  have hnan : double.classify v ≠ .nan := hv.trans_ne (by decide)
  have hinfinity := (classify_eq_infinity_iff _ _).2 (magnitudeBits_signed hsign hmask)
  refine ⟨double.signed (double.fields v).sign double.infinity, ?_,
    signed_lt hsign hmask, ?_, ?_⟩
  · have hread : ∀ negative, parse (String.ofList (minusIf negative ++ "inf".toList)) L =
        .ok (double.signed negative.toNat double.infinity, .double) := by
      intro negative
      cases negative <;> rfl
    rw [formatScalar, scalarText_eq hnan, magnitudeText, hv, ← toNat_isNegative]
    exact hread _
  · refine formatScalar_congr hnan (hinfinity.trans_ne (by decide)) ?_ ?_
    · rw [fields_signed_magnitude hsign hmask]
    · rw [magnitudeText, magnitudeText, hv, hinfinity]
  · intro hfinite
    rw [double.isFinite_iff, hmagnitude] at hfinite
    exact absurd hfinite (lt_irrefl _)

theorem reentered_of_nan (hv : double.classify v = .nan) (L : Layout) :
    ∃ b, parse (formatScalar v) L = .ok (b, .double) ∧ IsReentered v b := by
  have htext : formatScalar v = "nan" := by
    rw [formatScalar, scalarText, magnitudeText, hv]
    simp
  refine ⟨double.quietNan, ?_, by decide, ?_, ?_⟩
  · rw [htext]
    rfl
  · rw [htext]
    decide
  · intro hfinite
    rw [double.isFinite_iff] at hfinite
    exact absurd ((classify_eq_nan_iff _ _).1 hv) hfinite.not_gt

end Entry

/-- What is displayed for a double that is no denormal is entered as a double that is displayed in the
same way. It has the sign of the first one, and almost its value. -/
theorem formatScalar_reentered (hv : double.classify v ≠ .denormal) (L : Layout) (p : Platform) :
    ∃ b value, parse (formatScalar v) L = .ok (b, .double) ∧
      double.decode p b = .ok value ∧ formatScalar value = formatScalar v ∧
      (double.IsFinite v → double.value v ≠ 0 →
        (double.fields b).sign = (double.fields v).sign ∧
        double.IsFinite b ∧
        |double.value b - double.value v| ≤ 5.000001e-6 * |double.value v|) := by
  obtain ⟨b, hparse, h⟩ : ∃ b, parse (formatScalar v) L = .ok (b, .double) ∧ IsReentered v b := by
    cases hclass : double.classify v with
    | zero => exact reentered_of_zero hclass L
    | denormal => exact absurd hclass hv
    | normal => exact reentered_of_normal hclass L
    | infinity => exact reentered_of_infinity hclass L
    | nan => exact reentered_of_nan hclass L
  exact ⟨b, b, hparse, decode_double (fits_natCast h.lt), h.text, h.close⟩

/-- A number whose digits are raised to a power of ten. -/
theorem formatScalar_reentered_raised :
    double.classify (0xC12E847F00000000 : Nat) ≠ .denormal ∧
      formatScalar 0xC12E847F00000000 = "-1e+06" ∧
      parse "-1e+06" .half = .ok (0xC12E848000000000, .double) ∧
      double.decode .native 0xC12E848000000000 = .ok 0xC12E848000000000 ∧
      formatScalar 0xC12E848000000000 = "-1e+06" ∧
      (double.fields 0xC12E848000000000).sign = 1 ∧
      |double.value 0xC12E848000000000 - double.value 0xC12E847F00000000| ≤
        5.000001e-6 * |double.value 0xC12E847F00000000| := by
  have hv : double.classify (0xC12E847F00000000 : Nat) ≠ .denormal := by decide
  have hne : double.value (0xC12E847F00000000 : Nat) ≠ 0 := by
    rw [← abs_pos, abs_value, ← double.magnitudeValue_zero]
    exact double.magnitudeValue_strictMono (by decide)
  have hshown : formatScalar 0xC12E847F00000000 = "-1e+06" := by decide +kernel
  have hread : parse "-1e+06" .half = .ok (0xC12E848000000000, .double) := by decide +kernel
  obtain ⟨b, value, hparse, hdecode, htext, hclose⟩ := formatScalar_reentered hv .half .native
  obtain ⟨hsign, -, hnear⟩ := hclose (by decide) hne
  rw [hshown] at hparse htext
  obtain rfl : b = 0xC12E848000000000 :=
    congrArg Prod.fst (Except.ok.inj (hparse.symm.trans hread))
  have hvalue : double.decode .native 0xC12E848000000000 = .ok 0xC12E848000000000 := by decide
  obtain rfl : value = 0xC12E848000000000 := Except.ok.inj (hdecode.symm.trans hvalue)
  exact ⟨hv, hshown, hparse, hdecode, htext, hsign, hnear⟩

end HalfPrecision.Inspect
