import HalfPrecision.Proofs.Text.DigitRow

/-!
# Numbers filled up with zeros

Digits in a base up to sixteen are read as the number that they stand for, with any zeros in front of
it. Between texts of the same length the order of the characters is that of the numbers, since the
first place where they differ decides.
-/

namespace HalfPrecision.Text

theorem digitChar_lt_digitChar : ∀ e < 16, ∀ d < e, digitChar d < digitChar e := by decide

variable {base : Nat}

theorem length_paddedNumeral (size n : Nat) :
    (paddedNumeral base size n).length = (paddedDigits base size n).length := by
  rw [paddedNumeral_eq_map, List.length_map]

/-- Of as many digits each, those of the smaller number come first. -/
theorem map_digitChar_lt_map_digitChar (hbase : base ≤ 16) {ds es : List Nat}
    (hlength : ds.length = es.length) (hds : ∀ d ∈ ds, d < base) (hes : ∀ e ∈ es, e < base)
    (h : ofDigits base ds < ofDigits base es) : ds.map digitChar < es.map digitChar := by
  induction ds generalizing es with
  | nil =>
    obtain rfl := List.length_eq_zero_iff.1 hlength.symm
    exact absurd h (lt_irrefl _)
  | cons d ds ih =>
    obtain ⟨e, es, rfl⟩ := List.exists_cons_of_length_eq_add_one hlength.symm
    obtain ⟨hd, hds'⟩ := List.forall_mem_cons.1 hds
    obtain ⟨he, hes'⟩ := List.forall_mem_cons.1 hes
    have hrest : ds.length = es.length := Nat.succ.inj hlength
    rw [ofDigits_cons, ofDigits_cons, hrest] at h
    rw [List.map_cons, List.map_cons, List.cons_lt_cons_iff]
    rcases Nat.lt_trichotomy d e with hlt | rfl | hgt
    · exact .inl (digitChar_lt_digitChar e (he.trans_le hbase) d hlt)
    · exact .inr ⟨rfl, ih hrest hds' hes' (by omega)⟩
    · -- The digits that follow cannot make up for a smaller one in front of them.
      have htail := ofDigits_lt_pow hes'
      have hnext := Nat.mul_le_mul_right (base ^ es.length) (Nat.succ_le_of_lt hgt)
      rw [Nat.succ_mul] at hnext
      omega

theorem paddedNumeral_lt_paddedNumeral (hlow : 1 < base) (hhigh : base ≤ 16) {size p q : Nat}
    (hlength : (paddedNumeral base size p).length = (paddedNumeral base size q).length)
    (h : p < q) : paddedNumeral base size p < paddedNumeral base size q := by
  rw [paddedNumeral_eq_map, paddedNumeral_eq_map, List.length_map, List.length_map] at hlength
  rw [paddedNumeral_eq_map, paddedNumeral_eq_map]
  apply map_digitChar_lt_map_digitChar hhigh hlength
  · exact lt_of_mem_paddedDigits hlow size p
  · exact lt_of_mem_paddedDigits hlow size q
  · rwa [ofDigits_paddedDigits, ofDigits_paddedDigits]

theorem digitsOnto_of_le (hbase : 1 < base) {n : Nat} (h : base ≤ n) (rest : List Nat) :
    digitsOnto base n rest = digitsOnto base (n / base) (n % base :: rest) := by
  rw [digitsOnto, dif_pos ⟨h, hbase⟩]

/-- A digit times a power of the base is written as the digit in front of zeros. -/
theorem digitsOnto_mul_pow (hbase : 1 < base) {d : Nat} (hd : 0 < d) (hlt : d < base) (k : Nat)
    (rest : List Nat) :
    digitsOnto base (d * base ^ k) rest = d :: (List.replicate k 0 ++ rest) := by
  have hpos : 0 < base := Nat.zero_lt_of_lt hbase
  induction k generalizing rest with
  | zero =>
    rw [Nat.pow_zero, Nat.mul_one, digitsOnto, dif_neg (by omega)]
    rfl
  | succ k ih =>
    have hle : base ≤ d * base ^ k * base :=
      Nat.le_mul_of_pos_left _ (Nat.mul_pos hd (Nat.pow_pos hpos))
    rw [Nat.pow_succ, ← Nat.mul_assoc, digitsOnto_of_le hbase hle, Nat.mul_div_cancel _ hpos,
      Nat.mul_mod_left, ih, List.replicate_succ', List.append_assoc, List.singleton_append]

end HalfPrecision.Text
