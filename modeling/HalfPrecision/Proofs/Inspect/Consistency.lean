import HalfPrecision.Proofs.Conversion.Nearest
import HalfPrecision.Proofs.Conversion.WideningTwice
import HalfPrecision.Proofs.Inspect.Description

/-!
# The lines of a description agree

The half in a description is decoded by widening it to a double, and so is the double below it, but
the single between them is decoded by rounding. As singles have room for the denormals of halves, and
doubles for those of singles, all three decode to one double. The lines show one value, and the
classes differ only for a denormal half, which is normal in the wider layouts.
-/

namespace HalfPrecision

open Layout

/-- The single that a half is widened to is decoded to the double that the half is widened to. -/
theorem convertToEven_singleOfHalf (bits : Int) :
    single.convertToEven .double (singleOfHalf bits) = doubleOfHalf bits := by
  have hdouble : double.Extends single := single_extends_double
  have hpattern : (single.convertToEven .double (singleOfHalf bits) : Int) =
      widenPattern half double bits := by
    rw [hdouble.convertToEven_eq_widenPattern (by decide), singleOfHalf,
      half_extends_single.natCast_toNat_widenPattern (by decide),
      half_extends_single.widenPattern_widenPattern hdouble (by decide)]
  rw [doubleOfHalf, ← hpattern, Int.toNat_natCast]

namespace Inspect

/-- The line of a pattern with the word of a class and the text of a value. -/
def lineOf (L : Layout) (bits : Int) (c : FloatClass) (valueText : String) : String :=
  String.ofList (Text.alignRight 6 L.name.toList) ++ ": " ++ formatHex L bits ++ " [" ++
    formatFields L bits ++ "] " ++ c.label ++ " = " ++ valueText

theorem formatPattern_eq_lineOf (L : Layout) (bits : Int) (double : Nat) :
    formatPattern L bits double = lineOf L bits (L.classify bits) (formatScalar double) := by
  rw [formatPattern, patternText, lineOf, formatHex, formatFields, formatScalar]
  simp only [String.ofList_append, String.ofList_toList]

/-- The lines of a half and of what it widens to, with one text for the value of all three. -/
def widenedLines (half single double : Int) (c : FloatClass) (valueText : String) : List String :=
  [lineOf .half half c valueText, lineOf .single single c.widened valueText,
    lineOf .double double c.widened valueText]

variable {p : Platform}

theorem line_singleOfHalf (bits : Int) :
    line p .single (singleOfHalf bits) =
      .ok (lineOf .single (singleOfHalf bits) (Layout.half.classify bits).widened
        (formatScalar (doubleOfHalf bits))) := by
  rw [← half_extends_single.classify_toNat_widenPattern (by decide), ← singleOfHalf,
    ← formatPattern_eq_lineOf, line, decode, if_neg (by decide), if_pos rfl,
    if_pos (singleOfHalf_fits bits), convertToEven_singleOfHalf]
  rfl

theorem line_doubleOfHalf (bits : Int) :
    line p .double (doubleOfHalf bits) =
      .ok (lineOf .double (doubleOfHalf bits) (Layout.half.classify bits).widened
        (formatScalar (doubleOfHalf bits))) := by
  rw [← half_extends_double.classify_toNat_widenPattern (by decide), ← doubleOfHalf,
    ← formatPattern_eq_lineOf, line, decode, if_neg (by decide), if_neg (by decide), if_pos rfl,
    if_pos (doubleOfHalf_fits bits)]
  rfl

section Native

variable (hp : p.ieee754 = true)

include hp

theorem line_half (bits : Int) :
    line p .half bits =
      .ok (lineOf .half bits (Layout.half.classify bits) (formatScalar (doubleOfHalf bits))) := by
  rw [← formatPattern_eq_lineOf, line, decode, if_pos rfl, Platform.ofHalf, if_pos hp]
  rfl

theorem halfLines_eq_ok (bits : Int) :
    halfLines p bits =
      .ok (widenedLines bits (singleOfHalf bits) (doubleOfHalf bits) (Layout.half.classify bits)
        (formatScalar (doubleOfHalf bits))) := by
  rw [halfLines, line_half hp, line_singleOfHalf, line_doubleOfHalf]
  rfl

/-- A description ends with the lines of a half and of the single and the double that it widens to.
They show the value of the double and one class, but for a denormal half, which is normal in the
wider layouts. In front of them is the line of the described pattern, unless that is the half. -/
theorem describe_lines_agree {L : Layout} (hL : L.isBuiltIn = true) {bits : Int} (h : L.Fits bits) :
    ∃ (own : List String) (half single double : Nat),
      describe p L bits =
        .ok (own ++
          widenedLines half single double (Layout.half.classify half) (formatScalar double)) ∧
      (L = .half → own = [] ∧ half = bits) ∧
      (L ≠ .half → narrow L .half bits = .ok half ∧
        ∃ value, L.decode p bits = .ok value ∧ own = [formatPattern L bits value]) ∧
      widen .half .single half = .ok single ∧ widen .half .double half = .ok double := by
  by_cases hhalf : L = .half
  · subst hhalf
    obtain ⟨half, rfl⟩ := Int.eq_ofNat_of_zero_le h.1
    refine ⟨[], half, _, _, ?_, fun _ => ⟨rfl, rfl⟩, fun hne => absurd rfl hne,
      half_extends_single.widen_eq_ok_toNat (by decide) _,
      half_extends_double.widen_eq_ok_toNat (by decide) _⟩
    rw [describe, if_pos rfl, halfLines_eq_ok hp]
    rfl
  · have hextends : L.Extends .half := by
      rcases L.isBuiltIn_iff.1 hL with rfl | rfl | rfl
      · exact absurd rfl hhalf
      · exact half_extends_single
      · exact half_extends_double
    obtain ⟨value, hvalue⟩ := L.exists_decode_eq_ok hp hL h
    refine ⟨[formatPattern L bits value], narrowPattern L .half bits, _, _, ?_,
      fun heq => absurd heq hhalf, fun _ => ⟨narrow_eq_ok hextends bits, value, hvalue, rfl⟩,
      half_extends_single.widen_eq_ok_toNat (by decide) _,
      half_extends_double.widen_eq_ok_toNat (by decide) _⟩
    rw [describe, if_neg hhalf, halfLines_eq_ok hp, line, hvalue]
    rfl

end Native

/-- A negative single beyond half of the least denormal becomes that denormal half. -/
theorem describe_lines_agree_denormal :
    Platform.native.ieee754 = true ∧ Layout.single.isBuiltIn = true ∧
      Layout.single.Fits 0xB3000001 ∧
      ∃ own,
        describe .native .single 0xB3000001 =
          .ok [own, lineOf .half 0x8001 .denormal "-5.96046e-08",
            lineOf .single 0xB3800000 .normal "-5.96046e-08",
            lineOf .double 0xBE70000000000000 .normal "-5.96046e-08"] := by
  have hfits : Layout.single.Fits 0xB3000001 := by decide
  obtain ⟨own, half, single, double, hdescribe, -, hother, hsingle, hdouble⟩ :=
    describe_lines_agree (p := .native) rfl (L := .single) rfl hfits
  obtain ⟨hnarrow, value, -, rfl⟩ := hother (by decide)
  have hhalf : half = 0x8001 := Except.ok.inj (hnarrow.symm.trans (by decide))
  subst hhalf
  have hsingle' : (single : Int) = 0xB3800000 := Except.ok.inj (hsingle.symm.trans (by decide))
  have hdouble' : (double : Int) = 0xBE70000000000000 :=
    Except.ok.inj (hdouble.symm.trans (by decide))
  have hvalue : formatScalar double = "-5.96046e-08" := by
    rw [Int.ofNat.inj hdouble']
    decide +kernel
  rw [hvalue, hsingle', hdouble'] at hdescribe
  exact ⟨rfl, rfl, hfits, _, hdescribe⟩

end Inspect

end HalfPrecision
