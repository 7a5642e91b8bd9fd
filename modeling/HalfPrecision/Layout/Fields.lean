import HalfPrecision.Layout

/-!
# Fields and words

The fields of a pattern are cut from its word without loss: each lies within its field, and their
places added up give the word back. Joining parts that lie within their fields is the inverse.
-/

namespace HalfPrecision.Layout

variable (L : Layout)

theorem width_sub_one : L.width - 1 = L.exponentBits + L.mantissaBits := by
  rw [width, Nat.add_assoc, Nat.add_sub_cancel_left]

theorem signMask_eq : L.signMask = 2 ^ L.exponentBits * L.hiddenBit := by
  rw [signMask, width_sub_one, Nat.pow_add, hiddenBit]

theorem two_pow_width : 2 ^ L.width = 2 * L.signMask := by
  rw [signMask, width_sub_one, width, Nat.add_assoc, Nat.pow_add, Nat.pow_one]

theorem wrap_of_lt {n : Nat} (h : n < 2 ^ L.width) : L.wrap n = n := by
  rw [wrap, ← Int.natCast_emod, Nat.mod_eq_of_lt h, Int.toNat_natCast]

/-- Bits beyond the word do not count. -/
theorem fields_mod (n : Nat) : L.fields (n % 2 ^ L.width : Nat) = L.fields n := by
  have hwrap : L.wrap (n % 2 ^ L.width : Nat) = L.wrap n := by
    rw [wrap, wrap, Int.natCast_emod, Int.emod_emod]
  rw [fields, fields, hwrap]

theorem sign_lt (bits : Int) : (L.fields bits).sign < 2 := by
  have h := L.wrap_lt bits
  rw [two_pow_width] at h
  exact (Nat.div_lt_iff_lt_mul (Nat.two_pow_pos _)).2 h

theorem exponent_lt (bits : Int) : (L.fields bits).exponent < 2 ^ L.exponentBits :=
  Nat.mod_lt _ (Nat.two_pow_pos _)

theorem mantissa_lt (bits : Int) : (L.fields bits).mantissa < L.hiddenBit :=
  Nat.mod_lt _ (Nat.two_pow_pos _)

/-- The bits below the sign. -/
theorem wrap_mod_signMask (bits : Int) :
    L.wrap bits % L.signMask =
      (L.fields bits).exponent * L.hiddenBit + (L.fields bits).mantissa := by
  rw [signMask_eq, Nat.mul_comm, Nat.mod_mul, Nat.add_comm, Nat.mul_comm]
  rfl

/-- A word is the sum of its fields at their places. -/
theorem wrap_eq (bits : Int) :
    L.wrap bits = (L.fields bits).sign * L.signMask +
      ((L.fields bits).exponent * L.hiddenBit + (L.fields bits).mantissa) := by
  rw [← wrap_mod_signMask]
  exact (Nat.div_add_mod' _ _).symm

theorem hiddenBit_pos : 0 < L.hiddenBit := Nat.two_pow_pos _

theorem signMask_pos : 0 < L.signMask := Nat.two_pow_pos _

theorem magnitude_lt {exponent mantissa : Nat} (he : exponent < 2 ^ L.exponentBits)
    (hm : mantissa < L.hiddenBit) : exponent * L.hiddenBit + mantissa < L.signMask := by
  rw [signMask_eq]
  exact Nat.lt_of_lt_of_le (Nat.add_lt_add_left hm _)
    (Nat.succ_mul exponent _ ▸ Nat.mul_le_mul_right _ he)

/-- Parts within their fields do not run into each other. -/
theorem compose_natCast {sign exponent mantissa : Nat} (he : exponent < 2 ^ L.exponentBits)
    (hm : mantissa < L.hiddenBit) :
    L.compose sign exponent mantissa =
      (L.signed sign (exponent * L.hiddenBit + mantissa) : Nat) := by
  have hlow : exponent * L.hiddenBit ||| mantissa = exponent * L.hiddenBit + mantissa := by
    rw [Nat.mul_comm, hiddenBit, Nat.two_pow_add_eq_or_of_lt hm]
  have hword : sign * L.signMask ||| exponent * L.hiddenBit + mantissa =
      L.signed sign (exponent * L.hiddenBit + mantissa) := by
    rw [signed, Nat.mul_comm sign, signMask, Nat.two_pow_add_eq_or_of_lt (L.magnitude_lt he hm)]
  rw [← hword, ← hlow, ← Nat.or_assoc]
  rfl

/-- Cutting a word that was joined gives its parts back. -/
theorem fields_signed {sign exponent mantissa : Nat} (hs : sign < 2)
    (he : exponent < 2 ^ L.exponentBits) (hm : mantissa < L.hiddenBit) :
    L.fields (L.signed sign (exponent * L.hiddenBit + mantissa) : Nat) =
      { sign, exponent, mantissa } := by
  have hmag := L.magnitude_lt he hm
  have hword : L.wrap (L.signed sign (exponent * L.hiddenBit + mantissa) : Nat) =
      L.signed sign (exponent * L.hiddenBit + mantissa) := by
    apply L.wrap_of_lt
    rw [two_pow_width, signed]
    have := Nat.mul_le_mul_right L.signMask (Nat.le_of_lt_succ hs)
    omega
  have hsign : L.signed sign (exponent * L.hiddenBit + mantissa) / L.signMask = sign := by
    rw [signed, Nat.mul_comm, Nat.mul_add_div L.signMask_pos, Nat.div_eq_of_lt hmag,
      Nat.add_zero]
  have hlow : L.signed sign (exponent * L.hiddenBit + mantissa) =
      L.hiddenBit * (2 ^ L.exponentBits * sign + exponent) + mantissa := by
    rw [signed, signMask_eq, Nat.mul_add, ← Nat.mul_assoc, Nat.mul_comm L.hiddenBit,
      Nat.mul_comm _ sign, Nat.mul_comm L.hiddenBit, Nat.add_assoc]
  have hexponent : L.signed sign (exponent * L.hiddenBit + mantissa) / L.hiddenBit %
      2 ^ L.exponentBits = exponent := by
    rw [hlow, Nat.mul_add_div L.hiddenBit_pos, Nat.div_eq_of_lt hm, Nat.add_zero,
      Nat.mul_add_mod, Nat.mod_eq_of_lt he]
  have hmantissa : L.signed sign (exponent * L.hiddenBit + mantissa) % L.hiddenBit = mantissa := by
    rw [hlow, Nat.mul_add_mod, Nat.mod_eq_of_lt hm]
  unfold fields
  rw [hword, ← signMask, ← hiddenBit, hsign, hexponent, hmantissa]

/-- A number below the hidden bit is a mantissa. -/
theorem fields_natCast_of_lt {n : Nat} (h : n < L.hiddenBit) :
    L.fields n = { sign := 0, exponent := 0, mantissa := n } := by
  have hfields := L.fields_signed Nat.two_pos (Nat.two_pow_pos L.exponentBits) h
  rwa [signed, Nat.zero_mul, Nat.zero_mul, Nat.zero_add, Nat.zero_add] at hfields

/-- A negative number above the negated hidden bit has its sign and all bits of its exponent. -/
theorem fields_neg_of_lt {n : Nat} (hn : n ≠ 0) (h : n < L.hiddenBit) :
    L.fields (-n) = { sign := 1, exponent := L.exponentMax, mantissa := L.hiddenBit - n } := by
  have hpow : 0 < 2 ^ L.exponentBits := Nat.two_pow_pos _
  have hmax : L.exponentMax * L.hiddenBit + L.hiddenBit = L.signMask := by
    rw [signMask_eq, exponentMax, ← Nat.succ_mul, Nat.succ_eq_add_one, Nat.sub_add_cancel hpow]
  have hword : L.signed 1 (L.exponentMax * L.hiddenBit + (L.hiddenBit - n)) = 2 ^ L.width - n := by
    rw [signed, two_pow_width]
    omega
  have hwrap : L.wrap (-n) = L.wrap (2 ^ L.width - n : Nat) := by
    have hle : n ≤ 2 ^ L.width := by
      rw [two_pow_width]
      omega
    rw [wrap, wrap, Int.ofNat_sub hle, Int.sub_eq_add_neg, Int.add_comm, Int.add_emod_right]
  have hfields := L.fields_signed Nat.one_lt_two (Nat.sub_lt hpow Nat.one_pos)
    (Nat.sub_lt L.hiddenBit_pos (Nat.pos_of_ne_zero hn))
  rw [← exponentMax, hword] at hfields
  rw [← hfields, fields, fields, hwrap]

end HalfPrecision.Layout
