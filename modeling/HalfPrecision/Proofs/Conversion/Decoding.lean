import HalfPrecision.Proofs.Conversion.Nearest
import HalfPrecision.Proofs.Inspect.Description

/-!
# Decoded patterns

A half is decoded by widening it, a single by rounding it to a double, and a double is taken as it
lies in memory. Doubles have room for the denormals of halves and of singles, so rounding is widening
too, and all three ways give the double of what the stored fields stand for. Only patterns of the
halves may have bits beyond the word.
-/

namespace HalfPrecision

open Layout

@[simp] theorem FloatClass.widened_eq_nan_iff {c : FloatClass} : c.widened = nan ↔ c = nan := by
  cases c <;> decide

@[simp] theorem FloatClass.widened_eq_infinity_iff {c : FloatClass} :
    c.widened = infinity ↔ c = infinity := by
  cases c <;> decide

namespace Layout

variable {L : Layout} {bits : Int} {decoded : Nat}

/-- Whether a double stands for what a pattern stands for: it is a NaN for the NaNs, an infinity for
the infinities, and the number of the stored fields otherwise. Only NaNs may lose their sign. -/
structure IsDecoded (L : Layout) (bits : Int) (decoded : Nat) : Prop where
  lt : decoded < 2 ^ double.width
  nan_iff : double.classify decoded = .nan ↔ L.classify bits = .nan
  infinity_iff : double.classify decoded = .infinity ↔ L.classify bits = .infinity
  sign_eq : L.classify bits ≠ .nan → (double.fields decoded).sign = (L.fields bits).sign
  value_eq : L.IsFinite bits →
    double.IsFinite decoded ∧ double.value decoded = L.fieldsValue (L.fields bits)

/-- A pattern that fits the doubles is its own double. -/
theorem isDecoded_toNat (h : double.Fits bits) : IsDecoded double bits bits.toNat := by
  obtain ⟨n, rfl⟩ := Int.eq_ofNat_of_zero_le h.1
  refine ⟨Int.ofNat_lt.1 h.2, Iff.rfl, Iff.rfl, fun _ => rfl, fun hfinite => ⟨hfinite, ?_⟩⟩
  exact double.value_eq_fieldsValue n

/-- Where doubles have room for the denormals of a layout, a pattern is widened to its double. -/
theorem Extends.isDecoded_widenPattern (h : double.Extends L)
    (hroom : L.bias + L.mantissaBits ≤ double.bias) (bits : Int) :
    IsDecoded L bits (widenPattern L double bits).toNat := by
  have hclass := h.classify_toNat_widenPattern hroom bits
  refine ⟨h.toNat_widenPattern_lt hroom bits, ?_, ?_, fun _ => ?_, fun hfinite => ?_⟩
  · rw [hclass, FloatClass.widened_eq_nan_iff]
  · rw [hclass, FloatClass.widened_eq_infinity_iff]
  · obtain ⟨magnitude, hmag, hpattern, -⟩ := h.exists_widen_classify hroom bits
    rw [hpattern, Int.toNat_natCast, fields_signed_magnitude (L.sign_lt bits) hmag]
  · obtain ⟨wide, hwide, -, -, hfin, hvalue⟩ := h.widensExactly hroom hfinite
    obtain rfl : wide = (widenPattern L double bits).toNat := by
      rw [widen_eq_ok h, Except.ok.injEq] at hwide
      rw [hwide, Int.toNat_natCast]
    exact ⟨hfin, hvalue.trans (L.value_eq_fieldsValue bits)⟩

/-- A single or a double is refused exactly if it has bits beyond the word. -/
theorem decode_eq_doesNotFit_iff (p : Platform) (hL : L.isBuiltIn = true) (hhalf : L ≠ half) :
    L.decode p bits = .error .doesNotFit ↔ ¬ L.Fits bits := by
  obtain rfl | rfl := (L.isBuiltIn_iff.1 hL).resolve_left hhalf
  · rw [decode, if_neg (by decide), if_pos rfl]
    split <;> simp [*]
  · rw [decode, if_neg (by decide), if_neg (by decide), if_pos rfl]
    split <;> simp [*]

theorem decode_double {p : Platform} {bits : Int} (hfits : double.Fits bits) :
    double.decode p bits = .ok bits.toNat := by
  rw [decode, if_neg (by decide), if_neg (by decide), if_pos rfl, if_pos hfits]

/-- Every pattern that fits a built-in layout is decoded to the double of what it stands for, a
single that is no NaN to the double that it is widened to. Halves are decoded only where doubles have
their usual form; singles and doubles are refused exactly if they do not fit. -/
theorem decode_isDecoded {p : Platform} (hL : L.isBuiltIn = true)
    (hp : L = half → p.ieee754 = true) (bits : Int) :
    (L.Fits bits → ∃ decoded, L.decode p bits = .ok decoded ∧ IsDecoded L bits decoded ∧
      (L = single → ¬ L.IsNaN bits → widen single double bits = .ok decoded)) ∧
    (L ≠ half → (L.decode p bits = .error .doesNotFit ↔ ¬ L.Fits bits)) := by
  refine ⟨fun hfits => ?_, decode_eq_doesNotFit_iff p hL⟩
  obtain rfl | rfl | rfl := L.isBuiltIn_iff.1 hL
  · refine ⟨doubleOfHalf bits, ?_, half_extends_double.isDecoded_widenPattern (by decide) bits,
      fun h => absurd h (by decide)⟩
    rw [decode, if_pos rfl, Platform.ofHalf, if_pos (hp rfl)]
    rfl
  · have hextends : double.Extends single := single_extends_double
    have hpattern : (single.convertToEven double bits : Int) = widenPattern single double bits :=
      hextends.convertToEven_eq_widenPattern (by decide)
    refine ⟨single.convertToEven double bits, ?_, ?_, fun _ _ => ?_⟩
    · rw [decode, if_neg (by decide), if_pos rfl, if_pos hfits]
    · have hdecoded := hextends.isDecoded_widenPattern (by decide) bits
      rwa [← hpattern, Int.toNat_natCast] at hdecoded
    · rw [widen_eq_ok hextends, hpattern]
  · exact ⟨bits.toNat, decode_double hfits, isDecoded_toNat hfits, fun h => absurd h (by decide)⟩

/-- The greatest denormal of the singles with a minus sign, and the first word that is too long. -/
theorem decode_isDecoded_denormal :
    single.isBuiltIn = true ∧ single.Fits 0x807FFFFF ∧
      IsDecoded single 0x807FFFFF 0xB80FFFFFC0000000 ∧
      single.fieldsValue (single.fields 0x807FFFFF) = -(2 ^ 23 - 1) * 2 ^ (-149 : Int) ∧
      single.decode .native 0x100000000 = .error .doesNotFit := by
  have hfits : single.Fits 0x807FFFFF := by decide
  obtain ⟨hfit, -⟩ := decode_isDecoded (p := .native) (L := single) rfl (fun _ => rfl) 0x807FFFFF
  obtain ⟨-, hlong⟩ := decode_isDecoded (p := .native) (L := single) rfl (fun _ => rfl) 0x100000000
  obtain ⟨decoded, -, hdecoded, hwiden⟩ := hfit hfits
  have hpattern : widen single double 0x807FFFFF = .ok 0xB80FFFFFC0000000 := by decide
  obtain rfl : decoded = 0xB80FFFFFC0000000 := by
    have hsame := (hwiden rfl (by decide)).symm.trans hpattern
    exact Int.ofNat.inj (Except.ok.inj hsame)
  have hfields : single.fields 0x807FFFFF = { sign := 1, exponent := 0, mantissa := 0x7FFFFF } := by
    decide
  refine ⟨rfl, hfits, hdecoded, ?_, (hlong (by decide)).2 (by decide)⟩
  rw [fieldsValue, hfields]
  norm_num [single, bias, biasOf]

end Layout

end HalfPrecision
