import HalfPrecision.Proofs.Capacity
import HalfPrecision.Proofs.Layout.Magnitude
import Mathlib.Data.Int.Bitwise

/-!
# Fields as bits at their places

A pattern is an integer of any size and sign. Its fields are the bits of its two's complement
expansion at three ranges of places, the masks of which share no bit and make up the word. So cutting
an integer into its fields loses what lies beyond the word and nothing else, and parts that lie
within their fields are found again where they were put.
-/

namespace HalfPrecision

namespace Bits

theorem testBit_disjoin (x y : Int) (i : Nat) :
    (disjoin x y).testBit i = (x.testBit i || y.testBit i) := by
  cases x <;> cases y <;> simp [disjoin, Int.testBit, testBit_clear, Bool.or_comm]

/-- The low bits of an integer. -/
theorem testBit_toNat_emod (x : Int) (k i : Nat) :
    (x % (2 ^ k : Nat)).toNat.testBit i = (decide (i < k) && x.testBit i) := by
  cases x with
  | ofNat n => exact Nat.testBit_mod_two_pow n k i
  | negSucc n =>
    have hlt : n % 2 ^ k < 2 ^ k := Nat.mod_lt n (Nat.two_pow_pos k)
    have hlow : (Int.negSucc n % (2 ^ k : Nat)).toNat = 2 ^ k - (n % 2 ^ k + 1) := by
      rw [Int.negSucc_emod n (by exact_mod_cast Nat.two_pow_pos k)]
      omega
    rw [hlow, Nat.testBit_two_pow_sub_succ hlt, Nat.testBit_mod_two_pow]
    by_cases hi : i < k <;> simp [hi, Int.testBit]

theorem toNat_disjoin_emod (x y : Int) (k : Nat) :
    (disjoin x y % (2 ^ k : Nat)).toNat =
      (x % (2 ^ k : Nat)).toNat ||| (y % (2 ^ k : Nat)).toNat := by
  apply Nat.eq_of_testBit_eq
  intro i
  rw [Nat.testBit_or, testBit_toNat_emod, testBit_toNat_emod, testBit_toNat_emod, testBit_disjoin,
    Bool.and_or_distrib_left]

end Bits

namespace Layout

variable (L : Layout)

section Places

variable (bits : Int)

theorem wrap_cast : (L.wrap bits : Int) = bits % (2 ^ L.width : Nat) := by
  apply Int.toNat_of_nonneg
  apply Int.emod_nonneg
  exact_mod_cast (Nat.two_pow_pos L.width).ne'

/-- Some bits within the word are those of the integer: the bits beyond the word are a multiple of
what is cut off above. -/
theorem wrap_div_mod (first size : Nat) (h : first + size ≤ L.width) :
    ((L.wrap bits / 2 ^ first % 2 ^ size : Nat) : Int) =
      bits >>> first % (2 ^ size : Nat) := by
  obtain ⟨rest, hrest⟩ := Nat.exists_eq_add_of_le h
  obtain ⟨q, hq⟩ : ∃ q : Int,
      bits = L.wrap bits + (2 ^ first : Nat) * ((2 ^ size : Nat) * ((2 ^ rest : Nat) * q)) := by
    refine ⟨bits / (2 ^ L.width : Nat), ?_⟩
    rw [wrap_cast, ← Int.mul_assoc, ← Int.mul_assoc, ← Int.natCast_mul, ← Int.natCast_mul,
      ← Nat.pow_add, ← Nat.pow_add, ← hrest]
    exact (Int.emod_add_mul_ediv _ _).symm
  have hpos : ((2 ^ first : Nat) : Int) ≠ 0 := by exact_mod_cast (Nat.two_pow_pos first).ne'
  rw [Int.shiftRight_eq_div_pow]
  calc ((L.wrap bits / 2 ^ first % 2 ^ size : Nat) : Int)
      = L.wrap bits / (2 ^ first : Nat) % (2 ^ size : Nat) := by
        rw [Int.natCast_emod, Int.natCast_ediv]
    _ = (L.wrap bits + (2 ^ first : Nat) * ((2 ^ size : Nat) * ((2 ^ rest : Nat) * q))) /
          (2 ^ first : Nat) % (2 ^ size : Nat) := by
      rw [Int.add_mul_ediv_left _ _ hpos, Int.add_mul_emod_self_left]
    _ = bits / (2 ^ first : Nat) % (2 ^ size : Nat) := by rw [← hq]

/-- The fields of an integer are cut from it by shifts and remainders. -/
theorem fields_eq_shifted :
    ((L.fields bits).sign : Int) = bits >>> (L.width - 1) % 2 ∧
      ((L.fields bits).exponent : Int) = bits >>> L.mantissaBits % (2 ^ L.exponentBits : Nat) ∧
        ((L.fields bits).mantissa : Int) = bits % (2 ^ L.mantissaBits : Nat) := by
  have hwidth := L.width_eq
  refine ⟨?_, ?_, ?_⟩
  · have hsign := L.wrap_div_mod bits (L.width - 1) 1 (by omega)
    have hlt : L.wrap bits / 2 ^ (L.width - 1) < 2 := L.sign_lt bits
    rw [Nat.pow_one, Nat.mod_eq_of_lt hlt] at hsign
    exact hsign
  · exact L.wrap_div_mod bits L.mantissaBits L.exponentBits (by omega)
  · have hmantissa := L.wrap_div_mod bits 0 L.mantissaBits (by omega)
    rw [Nat.pow_zero, Nat.div_one, Int.shiftRight_zero] at hmantissa
    exact hmantissa

/-- A magnitude is what remains of an integer below the place of the sign. -/
theorem magnitudeBits_cast :
    (L.magnitudeBits bits : Int) = bits % (2 ^ (L.width - 1) : Nat) := by
  have hlow := L.wrap_div_mod bits 0 (L.width - 1) (by omega)
  rwa [Nat.pow_zero, Nat.div_one, Int.shiftRight_zero] at hlow

end Places

section Masks

theorem testBit_signMask (i : Nat) : L.signMask.testBit i = decide (i = L.width - 1) := by
  rw [signMask, Nat.testBit_two_pow]
  exact decide_eq_decide.2 eq_comm

theorem testBit_exponentMask (i : Nat) :
    L.exponentMask.testBit i = decide (L.mantissaBits ≤ i ∧ i < L.width - 1) := by
  rw [exponentMask, exponentMax, Nat.testBit_mul_two_pow, Nat.testBit_two_pow_sub_one,
    width_sub_one, ← Bool.decide_and]
  apply decide_eq_decide.2
  omega

theorem testBit_mantissaMask (i : Nat) : L.mantissaMask.testBit i = decide (i < L.mantissaBits) :=
  Nat.testBit_two_pow_sub_one _ _

/-- No two masks have a bit in common. -/
theorem masks_disjoint :
    L.signMask &&& L.exponentMask = 0 ∧ L.signMask &&& L.mantissaMask = 0 ∧
      L.exponentMask &&& L.mantissaMask = 0 := by
  have hwidth := L.width_sub_one
  have hpos := L.exponentBits_pos
  refine ⟨?_, ?_, ?_⟩
  all_goals
    apply Nat.eq_of_testBit_eq
    intro i
    rw [Nat.testBit_and, Nat.zero_testBit]
    simp only [testBit_signMask, testBit_exponentMask, testBit_mantissaMask, Bool.and_eq_false_iff,
      decide_eq_false_iff_not]
    omega

/-- The masks have all bits of the word. -/
theorem masks_union : L.signMask ||| L.exponentMask ||| L.mantissaMask = 2 ^ L.width - 1 := by
  have hwidth := L.width_eq
  apply Nat.eq_of_testBit_eq
  intro i
  rw [Nat.testBit_or, Nat.testBit_or, testBit_signMask, testBit_exponentMask, testBit_mantissaMask,
    Nat.testBit_two_pow_sub_one, ← Bool.decide_or, ← Bool.decide_or]
  apply decide_eq_decide.2
  omega

end Masks

/-- Joining the fields of an integer gives its word. -/
theorem compose_fields (bits : Int) :
    L.compose (L.fields bits).sign (L.fields bits).exponent (L.fields bits).mantissa =
      bits % (2 ^ L.width : Nat) := by
  rw [L.compose_natCast (L.exponent_lt bits) (L.mantissa_lt bits), signed, ← wrap_eq, wrap_cast]

/-- Parts within their fields are the fields of what they are joined to. -/
theorem fields_compose {sign exponent mantissa : Nat} (hs : sign < 2)
    (he : exponent ≤ L.exponentMax) (hm : mantissa ≤ L.mantissaMask) :
    L.fields (L.compose sign exponent mantissa) = { sign, exponent, mantissa } := by
  have hexponent : exponent < 2 ^ L.exponentBits := he.trans_lt L.exponentMax_lt
  have hmantissa : mantissa < L.hiddenBit :=
    hm.trans_lt (Nat.sub_lt L.hiddenBit_pos Nat.one_pos)
  rw [L.compose_natCast hexponent hmantissa, L.fields_signed hs hexponent hmantissa]

/-- The mantissa is found again below any sign and exponent, even where these are negative or run into
each other. -/
theorem mantissa_compose (sign exponent : Int) {mantissa : Nat} (h : mantissa < L.hiddenBit) :
    (L.fields (L.compose sign exponent mantissa)).mantissa = mantissa := by
  obtain ⟨-, -, hmantissa⟩ := L.fields_eq_shifted (L.compose sign exponent mantissa)
  have hsign : (sign * (2 ^ (L.width - 1) : Nat)) % (2 ^ L.mantissaBits : Nat) = 0 := by
    rw [width_sub_one, Nat.pow_add, Int.natCast_mul, ← Int.mul_assoc]
    exact Int.mul_emod_left _ _
  have hexponent : (exponent * (2 ^ L.mantissaBits : Nat)) % (2 ^ L.mantissaBits : Nat) = 0 :=
    Int.mul_emod_left _ _
  have hlow : ((mantissa : Int) % (2 ^ L.mantissaBits : Nat)).toNat = mantissa := by
    rw [← Int.natCast_emod, Int.toNat_natCast]
    exact Nat.mod_eq_of_lt h
  rw [← Int.toNat_natCast (L.fields _).mantissa, hmantissa, compose, Bits.toNat_disjoin_emod,
    Bits.toNat_disjoin_emod, hsign, hexponent, hlow]
  simp

/-- The fields of an integer joined again are its word, parts that lie within their fields are cut
out as they were, and the masks of the fields part the word among them. Where the word has a place in
memory, neither cutting nor joining fails. -/
theorem word_partitioned :
    (∀ bits : Int,
      L.compose (L.fields bits).sign (L.fields bits).exponent (L.fields bits).mantissa =
        bits % (2 ^ L.width : Nat)) ∧
    (∀ sign exponent mantissa : Nat,
      sign < 2 → exponent ≤ L.exponentMax → mantissa ≤ L.mantissaMask →
        L.fields (L.compose sign exponent mantissa) = { sign, exponent, mantissa }) ∧
    (L.signMask &&& L.exponentMask = 0 ∧ L.signMask &&& L.mantissaMask = 0 ∧
      L.exponentMask &&& L.mantissaMask = 0 ∧
        L.signMask ||| L.exponentMask ||| L.mantissaMask = 2 ^ L.width - 1) ∧
    (∀ capacity : Capacity, L.width ≤ capacity.memoryBits →
      (∀ bits : Int, L.fieldsWithin capacity bits = .ok (L.fields bits)) ∧
        ∀ sign exponent mantissa : Nat, sign < 2 → exponent ≤ L.exponentMax →
          L.composeWithin capacity sign exponent mantissa =
            .ok (L.compose sign exponent mantissa)) := by
  obtain ⟨hse, hsm, hem⟩ := L.masks_disjoint
  refine ⟨L.compose_fields, fun _ _ _ => L.fields_compose, ⟨hse, hsm, hem, L.masks_union⟩, ?_⟩
  intro capacity hmemory
  have hwidth := L.width_eq
  exact ⟨L.fieldsWithin_eq_ok (by omega), fun _ _ _ => L.composeWithin_eq_ok hmemory⟩

/-- The word of a negative integer, and the parts of the greatest NaN. -/
theorem word_partitioned_half :
    half.compose (half.fields (-2)).sign (half.fields (-2)).exponent (half.fields (-2)).mantissa =
        0xFFFE ∧
      half.fields (half.compose (1 : Nat) (31 : Nat) (1023 : Nat)) =
        { sign := 1, exponent := 31, mantissa := 1023 } ∧
        half.width ≤ Capacity.workstation.memoryBits ∧
          half.fieldsWithin .workstation (-2) = .ok { sign := 1, exponent := 31, mantissa := 1022 } := by
  obtain ⟨hword, hparts, -, hmemory⟩ := word_partitioned half
  have hwidth : half.width ≤ Capacity.workstation.memoryBits := by decide
  refine ⟨hword (-2), hparts 1 31 1023 (by decide) (by decide) (by decide), hwidth, ?_⟩
  exact (hmemory .workstation hwidth).1 (-2)

end Layout

end HalfPrecision
