import HalfPrecision.Conversion

/-!
# Doubling until a bit is set

A number is doubled as long as a given bit is not set, with no bound on how often. Each doubling
raises the leading bit by one place, so a number that begins below the given bit ends with its
leading bit there. A number that has no bit up to the given one would be doubled without end.
-/

namespace HalfPrecision

/-- `RaisedTo k m raised doublings`: doubled as long as bit `k` is not set, `m` becomes `raised` after
`doublings` doublings. Their number has no bound, and what is doubled without end becomes nothing. -/
inductive RaisedTo (k : Nat) : Nat → Nat → Nat → Prop
  | reached {m : Nat} : m.testBit k = true → RaisedTo k m m 0
  | doubled {m raised doublings : Nat} :
      m.testBit k = false → RaisedTo k (2 * m) raised doublings →
        RaisedTo k m raised (doublings + 1)

namespace RaisedTo

variable {k m raised doublings : Nat}

theorem unique (h : RaisedTo k m raised doublings) {raised' doublings' : Nat}
    (h' : RaisedTo k m raised' doublings') : raised' = raised ∧ doublings' = doublings := by
  induction h generalizing doublings' with
  | reached hset =>
    cases h' with
    | reached => exact ⟨rfl, rfl⟩
    | doubled hclear => simp [hset] at hclear
  | doubled hclear _ ih =>
    cases h' with
    | reached hset => simp [hset] at hclear
    | doubled _ hrest =>
      obtain ⟨rfl, rfl⟩ := ih hrest
      exact ⟨rfl, rfl⟩

/-- The leading bit climbs by one place with each doubling, so it comes to bit `k` itself. -/
theorem of_lt (hm : m ≠ 0) (h : m < 2 ^ (k + 1)) :
    RaisedTo k m (m * 2 ^ (k - m.log2)) (k - m.log2) := by
  generalize hcount : k - m.log2 = doublings
  have hlog : m.log2 < k + 1 := (Nat.log2_lt hm).2 h
  induction doublings generalizing m with
  | zero =>
    have hlow : 2 ^ k ≤ m := (Nat.le_log2 hm).1 (by omega)
    rw [Nat.pow_zero, Nat.mul_one]
    exact .reached (Nat.testBit_of_two_pow_le_and_two_pow_add_one_gt hlow h)
  | succ doublings ih =>
    have hhigh : m < 2 ^ k := (Nat.log2_lt hm).1 (by omega)
    have htwice : 2 * m < 2 ^ (k + 1) := by
      rw [Nat.pow_succ]
      omega
    have hclimb := Nat.log2_two_mul hm
    have hrest := ih (m := 2 * m) (by omega) htwice (by omega) (by omega)
    rw [Nat.mul_comm 2 m, Nat.mul_assoc, Nat.mul_comm 2, ← Nat.pow_succ, Nat.mul_comm m 2] at hrest
    exact .doubled (Nat.testBit_lt_two_pow hhigh) hrest

/-- A bound on the doublings does not matter where it is not reached. -/
theorem raiseToBit_eq (h : RaisedTo k m raised doublings) {fuel : Nat} (hfuel : doublings ≤ fuel) :
    raiseToBit k fuel m = (raised, doublings) := by
  induction h generalizing fuel with
  | reached hset =>
    cases fuel with
    | zero => rfl
    | succ => rw [raiseToBit, if_pos hset]
  | doubled hclear _ ih =>
    obtain ⟨fuel, rfl⟩ := Nat.exists_eq_succ_of_ne_zero (show fuel ≠ 0 by omega)
    rw [raiseToBit, if_neg (by simp [hclear]), ih (by omega)]

/-- What has no bit up to bit `k` gets none by doubling. -/
theorem mod_ne_zero (h : RaisedTo k m raised doublings) : m % 2 ^ (k + 1) ≠ 0 := by
  induction h with
  | @reached m hset =>
    intro hzero
    have hlow := Nat.testBit_mod_two_pow m (k + 1) k
    simp [hzero, hset] at hlow
  | doubled _ _ ih =>
    intro hzero
    apply ih
    rw [Nat.mul_mod, hzero, Nat.mul_zero, Nat.zero_mod]

end RaisedTo

end HalfPrecision
