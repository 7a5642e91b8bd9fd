import HalfPrecision.Inspect.Display
import HalfPrecision.Layout.Validation
import HalfPrecision.Proofs.Conversion.Widening
import HalfPrecision.Proofs.Inspect.Entry

/-!
# Every pattern that fits is described

A built-in layout decodes the patterns that fit it. The patterns that a description derives from
such a pattern are words of their layouts again, so on a platform that follows IEEE 754 no
description fails.
-/

namespace HalfPrecision

namespace Layout

theorem fits_natCast {L : Layout} {n : Nat} (h : n < 2 ^ L.width) : L.Fits n :=
  ⟨Int.natCast_nonneg n, Int.ofNat_lt.2 h⟩

theorem isBuiltIn_iff (L : Layout) :
    L.isBuiltIn = true ↔ L = half ∨ L = single ∨ L = double := by
  simp [isBuiltIn, or_assoc]

/-- A half is decoded, whatever bits lie beyond its word. -/
theorem exists_decode_half_eq_ok {p : Platform} (hp : p.ieee754 = true) (bits : Int) :
    ∃ value, half.decode p bits = .ok value := by
  rw [decode, if_pos rfl, Platform.ofHalf, if_pos hp]
  exact ⟨_, rfl⟩

/-- A built-in layout decodes what fits it. -/
theorem exists_decode_eq_ok {p : Platform} (hp : p.ieee754 = true) {L : Layout}
    (hL : L.isBuiltIn = true) {bits : Int} (h : L.Fits bits) :
    ∃ value, L.decode p bits = .ok value := by
  rcases L.isBuiltIn_iff.1 hL with rfl | rfl | rfl
  · exact exists_decode_half_eq_ok hp bits
  · rw [decode, if_neg (by decide), if_pos rfl, if_pos h]
    exact ⟨_, rfl⟩
  · rw [decode, if_neg (by decide), if_neg (by decide), if_pos rfl, if_pos h]
    exact ⟨_, rfl⟩

end Layout

theorem singleOfHalf_fits (half : Int) : Layout.single.Fits (singleOfHalf half) :=
  Layout.fits_natCast (Layout.half_extends_single.toNat_widenPattern_lt (by decide) half)

theorem doubleOfHalf_fits (half : Int) : Layout.double.Fits (doubleOfHalf half) :=
  Layout.fits_natCast (Layout.half_extends_double.toNat_widenPattern_lt (by decide) half)

namespace Inspect

/-- A text that is read gives a pattern that fits a built-in layout. -/
theorem fits_of_parse_eq_ok {text : String} {L own : Layout} {bits : Nat}
    (hL : L.isBuiltIn = true) (h : parse text L = .ok (bits, own)) :
    own.isBuiltIn = true ∧ own.Fits bits := by
  obtain ⟨hown, hlt⟩ := parse_eq_ok h
  refine ⟨?_, Layout.fits_natCast hlt⟩
  rw [hown]
  split
  · exact hL
  · rfl

variable {p : Platform} (hp : p.ieee754 = true)

include hp

theorem exists_line_eq_ok {L : Layout} (hL : L.isBuiltIn = true) {bits : Int} (h : L.Fits bits) :
    ∃ text, line p L bits = .ok text := by
  obtain ⟨value, hvalue⟩ := L.exists_decode_eq_ok hp hL h
  rw [line, hvalue]
  exact ⟨_, rfl⟩

theorem exists_halfLines_eq_ok (half : Int) : ∃ lines, halfLines p half = .ok lines := by
  obtain ⟨value, hvalue⟩ := Layout.exists_decode_half_eq_ok hp half
  obtain ⟨single, hsingle⟩ := exists_line_eq_ok hp rfl (singleOfHalf_fits half)
  obtain ⟨double, hdouble⟩ := exists_line_eq_ok hp rfl (doubleOfHalf_fits half)
  rw [halfLines, line, hvalue, hsingle, hdouble]
  exact ⟨_, rfl⟩

theorem exists_describe_eq_ok {L : Layout} (hL : L.isBuiltIn = true) {bits : Int}
    (h : L.Fits bits) : ∃ lines, describe p L bits = .ok lines := by
  unfold describe
  split
  · exact exists_halfLines_eq_ok hp bits
  · obtain ⟨own, hown⟩ := exists_line_eq_ok hp hL h
    obtain ⟨more, hmore⟩ := exists_halfLines_eq_ok hp (Layout.narrowPattern L .half bits)
    rw [hown, hmore]
    exact ⟨_, rfl⟩

end Inspect

end HalfPrecision
