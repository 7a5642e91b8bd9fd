import HalfPrecision.Layout.Capacity
import HalfPrecision.Proofs.Layout.Magnitude

/-!
# What memory has room for

Moving a number fails only if the number or the places it is moved by are more than there are bits
of memory. So a layout whose word has a place in memory has masks, its fields can be cut and joined,
its patterns have classes, and they are narrowed and widened as if there were no limits.
-/

namespace HalfPrecision

variable {capacity : Capacity}

namespace Capacity

/-- What is no longer than the memory can be moved by as many places. -/
theorem checkShift_eq_ok {n : Int} {places : Nat} (size : Nat) (hn : n.natAbs < 2 ^ size)
    (hsize : size ≤ capacity.memoryBits) (hplaces : places ≤ capacity.memoryBits) :
    capacity.checkShift n places = .ok () := by
  rw [checkShift]
  split
  next => rfl
  next hne =>
    have hlog : n.natAbs.log2 < size := (Nat.log2_lt (Int.natAbs_ne_zero.2 hne)).2 hn
    have hfew : ¬ pieces n.natAbs + (places + pieceBits - 1) / pieceBits > pieceLimit := by
      have hmemory := capacity.memoryBits_le
      simp only [pieces, pieceLimit, pieceBits]
      omega
    rw [if_neg hfew, if_neg hplaces.not_gt]

theorem exists_checkShift_one_eq_error {places : Nat} (h : capacity.memoryBits < places) :
    ∃ cause, capacity.checkShift 1 places = .error cause := by
  rw [checkShift, if_neg one_ne_zero, if_pos h]
  split
  next => exact ⟨_, rfl⟩
  next => exact ⟨_, rfl⟩

/-- A one can be moved up by as many places as there are bits of memory, and by no more. -/
theorem checkShift_one_eq_ok_iff {places : Nat} :
    capacity.checkShift 1 places = .ok () ↔ places ≤ capacity.memoryBits := by
  refine ⟨?_, fun h => ?_⟩
  · intro h
    by_contra hplaces
    obtain ⟨cause, hcause⟩ := exists_checkShift_one_eq_error (not_le.1 hplaces)
    rw [hcause] at h
    cases h
  · rcases Nat.eq_zero_or_pos places with rfl | hpos
    · rfl
    · exact checkShift_eq_ok 1 (by decide) (by omega) h

theorem shift_eq_ok {n : Int} {places : Nat} (size : Nat) (hn : n.natAbs < 2 ^ size)
    (hsize : size ≤ capacity.memoryBits) (hplaces : places ≤ capacity.memoryBits) :
    capacity.shift n places = .ok (n * (2 ^ places : Nat)) := by
  rw [shift]
  split
  next hzero => rw [hzero, Int.zero_mul]
  next => rw [checkShift_eq_ok size hn hsize hplaces]; rfl

end Capacity

namespace Layout

section Parts

variable (L : Layout)

theorem fieldsWithin_eq_ok (h : L.mantissaBits ≤ capacity.memoryBits) (bits : Int) :
    L.fieldsWithin capacity bits = .ok (L.fields bits) := by
  obtain ⟨f, hf⟩ : ∃ f, L.fieldsWithin capacity bits = .ok f := by
    rw [fieldsWithin, Capacity.checkShift_one_eq_ok_iff.2 h]
    exact ⟨_, rfl⟩
  rw [hf, L.eq_fields_of_fieldsWithin hf]

theorem classifyWithin_eq_ok (h : L.mantissaBits ≤ capacity.memoryBits) (bits : Int) :
    L.classifyWithin capacity bits = .ok (L.classify bits) := by
  obtain ⟨c, hc⟩ : ∃ c, L.classifyWithin capacity bits = .ok c := by
    rw [classifyWithin, Capacity.checkShift_one_eq_ok_iff.2 h]
    exact ⟨_, rfl⟩
  rw [hc, L.eq_classify_of_classifyWithin hc]

theorem composeWithin_eq_ok (h : L.width ≤ capacity.memoryBits) {sign exponent mantissa : Nat}
    (hs : sign < 2) (he : exponent ≤ L.exponentMax) :
    L.composeWithin capacity sign exponent mantissa = .ok (L.compose sign exponent mantissa) := by
  have hwidth := L.width_eq
  have hsign : capacity.shift sign (L.width - 1) = .ok (sign * (2 ^ (L.width - 1) : Nat)) :=
    Capacity.shift_eq_ok 1 hs (by omega) (by omega)
  have hexponent : capacity.shift exponent L.mantissaBits =
      .ok (exponent * (2 ^ L.mantissaBits : Nat)) :=
    Capacity.shift_eq_ok L.exponentBits (he.trans_lt L.exponentMax_lt) (by omega) (by omega)
  rw [composeWithin, hsign, hexponent]
  rfl

end Parts

section Conversions

variable {S T : Layout}

/-- Narrowing is the same as without limits if the word of the wider layout has a place. -/
theorem narrowWithin_eq_ok (h : S.Extends T) (hmemory : S.width ≤ capacity.memoryBits)
    (bits : Int) : narrowWithin capacity S T bits = .ok (narrowPattern S T bits) := by
  obtain ⟨word, hword⟩ : ∃ word, narrowWithin capacity S T bits = .ok word := by
    rw [narrowWithin, if_pos h, Capacity.checkShift_one_eq_ok_iff.2 hmemory]
    exact ⟨_, rfl⟩
  have hnarrow := narrow_of_narrowWithin hword
  rw [narrow_eq_ok h] at hnarrow
  rw [hword, Except.ok.inj hnarrow]

theorem exists_narrowWithin_eq_error (h : S.Extends T) (hmemory : capacity.memoryBits < S.width)
    (bits : Int) : ∃ cause, narrowWithin capacity S T bits = .error (.beyondCapacity cause) := by
  obtain ⟨cause, hcause⟩ := Capacity.exists_checkShift_one_eq_error hmemory
  exact ⟨cause, by rw [narrowWithin, if_pos h, hcause]⟩

/-- The parts that a widened pattern is joined from are no longer than its word. -/
theorem Extends.widenParts_lt (h : T.Extends S) (bits : Int) :
    (widenParts S T bits).sign < 2 ∧ (widenParts S T bits).exponent.natAbs < 2 ^ T.width ∧
      (widenParts S T bits).significand < 2 ^ T.width ∧
        (widenParts S T bits).places < T.width := by
  obtain ⟨hmore, hnoFewer⟩ := h
  have hwidth := T.width_eq
  have hpos := T.exponentBits_pos
  have hgrow : 2 ^ S.exponentBits ≤ 2 ^ T.exponentBits :=
    Nat.pow_le_pow_right Nat.two_pos hnoFewer
  -- The word is at least two places longer than the exponent of `T` and the mantissa of `S`.
  have hexponents : 2 ^ T.exponentBits * 4 ≤ 2 ^ T.width := by
    rw [← Nat.pow_add 2 T.exponentBits 2]
    exact Nat.pow_le_pow_right Nat.two_pos (by omega)
  have hmantissas : 2 ^ S.mantissaBits * 4 ≤ 2 ^ T.width := by
    rw [← Nat.pow_add 2 S.mantissaBits 2]
    exact Nat.pow_le_pow_right Nat.two_pos (by omega)
  have hsign := S.sign_lt bits
  have hexponent := S.exponent_lt bits
  have hmantissa := S.mantissa_lt bits
  have hmax := T.exponentMax_lt
  have hS := S.bias_lt
  have hT := T.bias_lt
  have hbits : S.mantissaBits < 2 ^ S.mantissaBits := Nat.lt_two_pow_self
  have hdoublings := snd_raiseToBit_le S.mantissaBits S.mantissaBits (S.fields bits).mantissa
  have hraised := Nat.mod_lt
    (raiseToBit S.mantissaBits S.mantissaBits (S.fields bits).mantissa).1 S.hiddenBit_pos
  rw [hiddenBit] at hmantissa hraised
  rw [widenParts, hiddenBit]
  split
  next =>
    split
    next => exact ⟨hsign, Nat.two_pow_pos _, Nat.two_pow_pos _, by dsimp only; omega⟩
    next => exact ⟨hsign, by dsimp only; omega, by dsimp only; omega, by dsimp only; omega⟩
  next =>
    split
    next =>
      refine ⟨hsign, by dsimp only; omega, ?_, by dsimp only; omega⟩
      dsimp only
      split <;> omega
    next => exact ⟨hsign, by dsimp only; omega, by dsimp only; omega, by dsimp only; omega⟩

theorem widenPatternWithin_eq_ok (h : T.Extends S) (hmemory : T.width ≤ capacity.memoryBits)
    (bits : Int) : widenPatternWithin capacity S T bits = .ok (widenPattern S T bits) := by
  obtain ⟨hsign, hexponent, hsignificand, hplaces⟩ := h.widenParts_lt bits
  have hwidths : S.width ≤ T.width := by
    have hmore := h.1
    have hnoFewer := h.2
    rw [width_eq, width_eq]
    omega
  have hmantissaBits : T.mantissaBits ≤ T.width := Nat.le_add_left _ _
  have hmask : capacity.checkShift 1 S.width = .ok () :=
    Capacity.checkShift_one_eq_ok_iff.2 (hwidths.trans hmemory)
  have hmoved : capacity.checkShift (widenParts S T bits).exponent T.mantissaBits = .ok () :=
    Capacity.checkShift_eq_ok T.width hexponent hmemory (hmantissaBits.trans hmemory)
  have hshiftSign : capacity.shift (widenParts S T bits).sign (T.width - 1) = .ok _ :=
    Capacity.shift_eq_ok 1 hsign (by omega) (by omega)
  have hshiftExponent : capacity.shift (widenParts S T bits).exponent T.mantissaBits = .ok _ :=
    Capacity.shift_eq_ok T.width hexponent hmemory (hmantissaBits.trans hmemory)
  have hshiftSignificand : capacity.shift (widenParts S T bits).significand
      (widenParts S T bits).places = .ok _ :=
    Capacity.shift_eq_ok T.width hsignificand hmemory (hplaces.le.trans hmemory)
  obtain ⟨wide, hwide⟩ : ∃ wide, widenPatternWithin capacity S T bits = .ok wide := by
    simp only [widenPatternWithin, hmask, hmoved, hshiftSign, hshiftExponent, hshiftSignificand,
      bind, Except.bind]
    split
    next => exact ⟨_, rfl⟩
    next => split <;> exact ⟨_, rfl⟩
  rw [hwide, eq_widenPattern_of_widenPatternWithin hwide]

/-- Widening is the same as without limits if the word of the wider layout has a place. -/
theorem widenWithin_eq_ok (h : T.Extends S) (hmemory : T.width ≤ capacity.memoryBits)
    (bits : Int) : widenWithin capacity S T bits = .ok (widenPattern S T bits) := by
  rw [widenWithin, if_pos h, widenPatternWithin_eq_ok h hmemory]

end Conversions

end Layout

end HalfPrecision
