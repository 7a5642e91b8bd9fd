import HalfPrecision.Proofs.Conversion.EvenFirst
import HalfPrecision.Proofs.Decimal.Grammar
import HalfPrecision.Proofs.Decimal.Nearest
import HalfPrecision.Proofs.Inspect.Consistency

/-!
# Entered decimal numbers

A decimal number is entered as the nearest double, and shown as the half nearest to that. This is the
half nearest to the number itself, unless the number lies just below a midpoint of halves and its
double is the midpoint.
-/

namespace HalfPrecision.Inspect

open Text Layout

variable {s : List Char} {negative : Bool} {q : Rat}

/-- No decimal number starts like a pattern. -/
theorem splitPattern?_of_numberText (h : Decimal.NumberText s negative q) :
    splitPattern? s = none := by
  have hnot (x : Char) (hx : x = 'x' ∨ x = 'X') : x ∉ s := by
    intro hmem
    have hletter : digitValue? x = none ∧ x ∉ ['_', '+', '-', '.', 'e', 'E'] := by
      rcases hx with rfl | rfl <;> decide
    obtain hmark | ⟨d, hd⟩ := h.isNumberCharacter x hmem
    · exact hletter.2 hmark
    · rw [hletter.1] at hd
      cases hd
  unfold splitPattern?
  split
  next x rest => exact if_neg fun hx => hnot x (by simpa using hx) (by simp)
  next x rest => exact if_neg fun hx => hnot x (by simpa using hx) (by simp)
  next => rfl

/-- A decimal number is entered as the nearest double with its sign. -/
theorem exists_ofText_eq_ok (h : Decimal.NumberText s negative q) :
    ∃ double < 2 ^ Layout.double.width, Entry.ofText s = .ok (.value double) ∧
      (Layout.double.fields double).sign = negative.toNat ∧
      Layout.double.IsNearestEven |q| (Layout.double.magnitudeBits double) := by
  obtain ⟨digits, exponent, hread, hvalue⟩ := h.exists_ofChars?_eq
  have hnear := Decimal.isNearestEven_nearestDouble digits exponent
  have hlt := hnear.1.trans_lt Layout.double.infinity_lt_signMask
  have hnegative := Bool.toNat_lt negative
  refine ⟨Layout.double.signed negative.toNat (Decimal.nearestDouble digits exponent),
    signed_lt hnegative hlt, ?_, ?_, ?_⟩
  · rw [Entry.ofText, splitPattern?_of_numberText h, hread]
    rfl
  · rw [fields_signed_magnitude hnegative hlt]
  · rwa [magnitudeBits_signed hnegative hlt, hvalue]

/-- A decimal number is read as the nearest double with its sign, a tie going to the even one. The
half that is shown for it has its sign too and is the nearest one, a tie going away from zero, unless
the number is raised to a midpoint; then it is the greater neighbour of that. -/
theorem parse_number_nearest {text : String}
    (h : Decimal.NumberText (strip text.toList) negative q) (L : Layout) :
    ∃ double half : Nat,
      parse text L = .ok (double, .double) ∧
      (Layout.double.fields double).sign = negative.toNat ∧
      Layout.double.IsNearestEven |q| (Layout.double.magnitudeBits double) ∧
      narrow .double .half double = .ok half ∧
      (∀ p : Platform, p.ieee754 = true → ∃ own rest value,
        describe p .double double = .ok (own :: formatPattern .half half value :: rest)) ∧
      (Layout.half.fields half).sign = negative.toNat ∧
      (∀ magnitude, IsRaisedToMidpoint .double .half q double magnitude →
        Layout.half.magnitudeBits half = magnitude + 1) ∧
      ((∀ magnitude, ¬ IsRaisedToMidpoint .double .half q double magnitude) →
        Layout.half.IsNearestAway |q| (Layout.half.magnitudeBits half)) := by
  obtain ⟨double, hlt, hread, hsign, hround⟩ := exists_ofText_eq_ok h
  refine ⟨double, narrowPattern .double .half double, ?_, hsign, hround,
    narrow_eq_ok half_extends_double _, ?_, ?_, ?_, ?_⟩
  · rw [parse, hread]
  · intro p hp
    obtain ⟨value, hvalue⟩ := Layout.double.exists_decode_eq_ok hp rfl (fits_natCast hlt)
    rw [describe, if_neg (by decide), line, hvalue, halfLines_eq_ok hp, widenedLines,
      ← formatPattern_eq_lineOf]
    exact ⟨_, _, _, rfl⟩
  · rw [sign_narrowPattern half_extends_double, hsign]
  · intro lower hraised
    rw [magnitudeBits_narrowPattern half_extends_double]
    exact narrowed_of_isRaisedToMidpoint half_extends_double (by decide) hround.isNearest hraised
  · intro hnot
    rw [magnitudeBits_narrowPattern half_extends_double]
    exact isNearestAway_narrowed_of_not_raised half_extends_double (by decide) hround.isNearest hnot

/-- A number just below the midpoint under infinity, with a digit of full width, an underscore, an
exponent and blanks around it. -/
theorem parse_number_nearest_below_infinity :
    Decimal.NumberText (strip "\u00A0-６.5_519999999999999e4\n".toList) true
        ((-1) ^ 1 * ((6 + 5519999999999999 / 10 ^ 16) * 10 ^ (4 : Int))) ∧
      ∃ half : Nat,
        parse "\u00A0-６.5_519999999999999e4\n" .half = .ok (0xC0EFFE0000000000, .double) ∧
        narrow .double .half 0xC0EFFE0000000000 = .ok half ∧
        (Layout.half.fields half).sign = 1 ∧
        Layout.half.magnitudeBits half = Layout.half.infinity := by
  have hnumber : Decimal.NumberText (strip "\u00A0-６.5_519999999999999e4\n".toList) true
      ((-1) ^ 1 * ((6 + 5519999999999999 / 10 ^ 16) * 10 ^ (4 : Int))) := by
    have hdigits : ∀ d ∈ 5 :: 1 :: List.replicate 13 9, digitValue? (asciiDigit d) = some d := by
      decide
    have hsignificand := Decimal.SignificandText.both (.one (c := '６') (d := 6) rfl)
      (.group (c := '5') (d := 5) rfl (DigitRow.of_map (List.cons_ne_nil _ _) hdigits))
    have hexponent := Decimal.ExponentText.given (.inl rfl) .absent
      (@DigitRow.one digitValue? '4' 4 rfl)
    convert Decimal.NumberText.mk .minus hsignificand hexponent using 1
    · decide
    · have hfraction : ofDigits 10 (5 :: 5 :: 1 :: List.replicate 13 9) = 5519999999999999 := by
        decide
      rw [hfraction]
      simp [ofDigits]
  obtain ⟨double, half, hparse, -, -, hnarrow, -, hsign, hraised, -⟩ :=
    parse_number_nearest hnumber .half
  have hread : parse "\u00A0-６.5_519999999999999e4\n" .half =
      .ok (0xC0EFFE0000000000, .double) := by decide +kernel
  obtain rfl : double = 0xC0EFFE0000000000 :=
    congrArg Prod.fst (Except.ok.inj (hparse.symm.trans hread))
  have hmid : Layout.half.midpoint 0x7BFF = 65520 := by
    have hlow : Layout.half.units 0x7BFF = 0x7FF * 2 ^ 29 := by decide
    have hhigh : Layout.half.units 0x7C00 = 2 ^ 40 := by decide
    have hunit : Layout.half.unit = 2 ^ (-24 : Int) := rfl
    rw [Layout.midpoint, magnitudeValue, magnitudeValue, hlow, hhigh, hunit]
    norm_num
  have hvalue : |Layout.double.value (0xC0EFFE0000000000 : Nat)| = 65520 := by
    have hbits : Layout.double.magnitudeBits (0xC0EFFE0000000000 : Nat) =
        0x40E * Layout.double.hiddenBit + 0xFFE0000000000 := by decide
    have hhidden : Layout.double.hiddenBit = 2 ^ 52 := rfl
    have hpower : ((0x40E : Nat) - Layout.double.bias - Layout.double.mantissaBits : Int) = -37 :=
      rfl
    rw [abs_value, hbits, magnitudeValue_mul_add _ (by decide) (by decide), hhidden, hpower]
    norm_num
  refine ⟨hnumber, half, hread, hnarrow, hsign, hraised 0x7BFF ⟨by decide, ?_, ?_⟩⟩
  · rw [hvalue, hmid]
  · rw [hmid, abs_mul, abs_neg_one_pow, one_mul]
    norm_num

end HalfPrecision.Inspect
