import HalfPrecision.Proofs.Decimal.Grammar
import HalfPrecision.Proofs.Decimal.Significant
import Mathlib.Data.List.DropRight

/-!
# Numbers written in general notation

Whether it is positional or has an exponent, the text of a number is one row of digits, with a point
somewhere in it or with zeros put in front, and without the zeros at its end. It is a decimal number
of the value of its significant digits.
-/

namespace HalfPrecision.Decimal

open Text

section Digits

variable {ds whole rest : List Nat}

theorem digitRow_asciiDigits (hne : ds ≠ []) (hds : ∀ d ∈ ds, d < 10) :
    DigitRow digitValue? (asciiDigits ds) ds :=
  DigitRow.of_map hne fun d hd => digitValue?_asciiDigit d (hds d hd)

theorem numeral_eq_asciiDigits (n : Nat) : numeral 10 n = asciiDigits (digits 10 n) :=
  List.map_congr_left fun _ hd => if_pos (forall_mem_digitsOnto (by decide) (by simp) _ hd)

/-- The digits that are left out at the end are zeros. -/
theorem exists_dropTrailingZeros_eq (hds : ∀ d ∈ ds, d < 10) :
    ∃ kept zeros, ds = kept ++ List.replicate zeros 0 ∧
      dropTrailingZeros (asciiDigits ds) = asciiDigits kept := by
  have hcut (s : List Char) : dropTrailingZeros s = s.rdropWhile (· = '0') := rfl
  have hzero : ∀ d < 10, asciiDigit d = '0' → d = 0 := by decide
  induction ds using List.reverseRecOn with
  | nil => exact ⟨[], 0, rfl, rfl⟩
  | append_singleton ds d ih =>
    obtain ⟨hinit, hlast⟩ := List.forall_mem_append.1 hds
    have htext : asciiDigits (ds ++ [d]) = asciiDigits ds ++ [asciiDigit d] := List.map_append
    by_cases hchar : asciiDigit d = '0'
    · obtain rfl := hzero d (hlast d (List.mem_singleton_self d)) hchar
      obtain ⟨kept, zeros, hkept, hdrop⟩ := ih hinit
      refine ⟨kept, zeros + 1, ?_, ?_⟩
      · rw [hkept, List.append_assoc, List.replicate_succ']
      · rw [htext, hcut, List.rdropWhile_concat_pos (fun c => decide (c = '0')) _ _
          (decide_eq_true hchar), ← hcut, hdrop]
    · refine ⟨ds ++ [d], 0, (List.append_nil _).symm, ?_⟩
      rw [htext, hcut, List.rdropWhile_concat_neg _ _ _ (by simpa using hchar)]

/-- Digits after a point are as good without the zeros at their end. -/
theorem exists_significandText (hwhole : ∀ d ∈ whole, d < 10) (hne : whole ≠ [])
    (hrest : ∀ d ∈ rest, d < 10) :
    ∃ fraction,
      SignificandText (asciiDigits whole ++ fractionPart (asciiDigits rest)) whole fraction ∧
      (ofDigits 10 fraction : Rat) / 10 ^ fraction.length = ofDigits 10 rest / 10 ^ rest.length := by
  obtain ⟨kept, zeros, rfl, hkept⟩ := exists_dropTrailingZeros_eq hrest
  have hrow := digitRow_asciiDigits hne hwhole
  have hzeros : ofDigits 10 (List.replicate zeros 0) = 0 := by
    rw [← List.append_nil (List.replicate zeros 0)]
    exact ofDigits_replicate_zero zeros []
  refine ⟨kept, ?_, ?_⟩
  · rw [fractionPart, hkept]
    cases kept with
    | nil =>
      rw [asciiDigits, asciiDigits, List.map_nil, List.append_nil]
      exact .whole hrow
    | cons d kept =>
      have hdigits := (List.forall_mem_append.1 hrest).1
      exact .both hrow (digitRow_asciiDigits (List.cons_ne_nil d kept) hdigits)
  · rw [ofDigits_append, hzeros, List.length_append, List.length_replicate, pow_add]
    push_cast
    field_simp
    simp

end Digits

section Writing

variable {s u : List Char} {negative : Bool} {whole rest : List Nat} {n : Nat} {e place : Int}

theorem exponentText_exponentPart (size : Nat) (exponent : Int) :
    ExponentText (exponentPart size exponent) exponent := by
  obtain ⟨ds, hrow, hds⟩ :=
    exists_digitRow_paddedNumeral (by decide) digitValue?_digitChar size exponent.natAbs
  rw [exponentPart]
  split
  next hneg =>
    have htext := ExponentText.given (.inl (Eq.refl 'e')) .minus hrow
    rwa [if_pos rfl, hds, Int.ofNat_natAbs_of_nonpos hneg.le, neg_neg] at htext
  next hpos =>
    have htext := ExponentText.given (.inl (Eq.refl 'e')) .plus hrow
    rwa [if_neg Bool.false_ne_true, hds, Int.natAbs_of_nonneg (not_lt.1 hpos)] at htext

/-- Digits with a point among them are a number. Its last digit has the place of the exponent, less
the digits behind the point. -/
theorem numberText_append (hsign : SignText s negative) (hne : whole ≠ [])
    (hdigits : ∀ d ∈ whole ++ rest, d < 10) (hn : ofDigits 10 (whole ++ rest) = n)
    (hexponent : ExponentText u e) (hplace : e - rest.length = place) :
    NumberText (s ++ (asciiDigits whole ++ fractionPart (asciiDigits rest) ++ u)) negative
      ((-1) ^ negative.toNat * (n * 10 ^ place)) := by
  obtain ⟨hwhole, hrest⟩ := List.forall_mem_append.1 hdigits
  obtain ⟨fraction, htext, hvalue⟩ := exists_significandText hwhole hne hrest
  convert NumberText.mk hsign htext hexponent using 2
  rw [hvalue, ← hn, ← hplace, ofDigits_append, zpow_sub₀ (by norm_num), zpow_natCast]
  push_cast
  field_simp

/-- Digits with a point among them and no exponent. -/
theorem numberText_positional (hsign : SignText s negative) (hne : whole ≠ [])
    (hdigits : ∀ d ∈ whole ++ rest, d < 10) (hn : ofDigits 10 (whole ++ rest) = n)
    (hplace : -(rest.length : Int) = place) :
    NumberText (s ++ (asciiDigits whole ++ fractionPart (asciiDigits rest))) negative
      ((-1) ^ negative.toNat * (n * 10 ^ place)) := by
  have htext := numberText_append hsign hne hdigits hn .absent (by rw [zero_sub, hplace])
  rwa [List.append_nil] at htext

/-- Nothing but its significant digits is written of a number. -/
theorem GeneralFormat.write_congr (f : GeneralFormat) {q q' : Fraction}
    (h : significant f.precision q = significant f.precision q') : f.write q = f.write q' := by
  rw [write, write, h]

/-- What is written for a positive number is the number of its significant digits. -/
theorem GeneralFormat.numberText_write (f : GeneralFormat) {q : Fraction} {exponent : Int}
    (hprecision : 0 < f.precision) (hdigits : significant f.precision q = (n, exponent))
    (hle : 10 ^ (f.precision - 1) ≤ n) (hlt : n < 10 ^ f.precision)
    (hsign : SignText s negative) :
    NumberText (s ++ f.write q) negative
      ((-1) ^ negative.toNat * digitsValue f.precision n exponent) := by
  obtain ⟨ds, hds⟩ : ∃ ds, ds = digits 10 n := ⟨_, rfl⟩
  have hlength : ds.length = f.precision := by
    rw [← Nat.sub_add_cancel hprecision] at hlt ⊢
    rw [hds]
    exact length_digitsOnto (by decide) hle hlt []
  have hsmall : ∀ d ∈ ds, d < 10 := hds ▸ forall_mem_digitsOnto (by decide) (by simp)
  have hvalue : ofDigits 10 ds = n := hds ▸ ofDigits_digits 10 n
  have hcut (k : Nat) : ds.take k ++ ds.drop k = ds := List.take_append_drop k ds
  have htake (k : Nat) : (asciiDigits ds).take k = asciiDigits (ds.take k) := List.map_take.symm
  have hdrop (k : Nat) : (asciiDigits ds).drop k = asciiDigits (ds.drop k) := List.map_drop.symm
  have hne {k : Nat} (hk : 0 < k) : ds.take k ≠ [] := by
    rw [ne_eq, List.take_eq_nil_iff, ← List.length_eq_zero_iff]
    omega
  rw [GeneralFormat.write, hdigits]
  simp only [numeral_eq_asciiDigits, ← hds, htake, hdrop]
  split
  next =>
    refine numberText_append hsign (hne Nat.one_pos) ((hcut 1).symm ▸ hsmall)
      ((hcut 1).symm ▸ hvalue) (exponentText_exponentPart _ _) ?_
    rw [List.length_drop, hlength]
    omega
  next hpositional =>
    simp only [Bool.or_eq_true, decide_eq_true_eq, not_or, not_lt, not_le] at hpositional
    split
    next hneg =>
      -- Zeros after the point bring the digits to their places.
      obtain ⟨k, hk⟩ : ∃ k, k = (-exponent - 1).toNat := ⟨_, rfl⟩
      have htext : asciiDigits (List.replicate k 0 ++ ds) =
          List.replicate k '0' ++ asciiDigits ds := by
        rw [asciiDigits, List.map_append, List.map_replicate]
        rfl
      have hzeros : [0] ++ (List.replicate k 0 ++ ds) = List.replicate (k + 1) 0 ++ ds := rfl
      rw [← hk, ← htext]
      refine numberText_positional hsign (List.cons_ne_nil 0 []) ?_ ?_ ?_
      · rw [hzeros]
        refine List.forall_mem_append.2 ⟨fun d hd => ?_, hsmall⟩
        rw [List.eq_of_mem_replicate hd]
        exact Fraction.ten_pos
      · rw [hzeros, ofDigits_replicate_zero, hvalue]
      · rw [List.length_append, List.length_replicate, hlength]
        omega
    next hpos =>
      refine numberText_positional hsign (hne (Nat.succ_pos _)) ((hcut _).symm ▸ hsmall)
        ((hcut _).symm ▸ hvalue) ?_
      rw [List.length_drop, hlength]
      omega

end Writing

end HalfPrecision.Decimal
