/-!
# Powers, steps and bits

What the other modules share. A computation whose steps may fail has a result only if each of its
steps has one. An integer stands for its two's complement expansion, in which the sign repeats
without end; the disjunction of two integers is taken position by position, and on natural numbers
it is the usual one.
-/

namespace HalfPrecision

-- Powers of natural numbers are those of the core library, whatever else is imported.
attribute [scoped instance (2000)] instPowNat

section Steps

variable {ε α β : Type}

theorem exists_of_bind_eq_ok {x : Except ε α} {f : α → Except ε β} {b : β}
    (h : x >>= f = .ok b) : ∃ a, x = .ok a ∧ f a = .ok b := by
  cases x with
  | error e => cases h
  | ok a => exact ⟨a, rfl, h⟩

/-- Each result of a traversal is that of an element. -/
theorem exists_of_mapM_eq_ok {f : α → Except ε β} {l : List α} {results : List β}
    (h : l.mapM f = .ok results) {b : β} (hb : b ∈ results) : ∃ a ∈ l, f a = .ok b := by
  induction l generalizing results with
  | nil =>
      cases h
      cases hb
  | cons a rest ih =>
      rw [List.mapM_cons] at h
      obtain ⟨first, hfirst, h⟩ := exists_of_bind_eq_ok h
      obtain ⟨others, hothers, h⟩ := exists_of_bind_eq_ok h
      cases h
      rcases List.mem_cons.1 hb with rfl | hrest
      · exact ⟨a, List.mem_cons_self, hfirst⟩
      · obtain ⟨a', hmem, ha'⟩ := ih hothers hrest
        exact ⟨a', List.mem_cons_of_mem _ hmem, ha'⟩

end Steps

namespace Bits

/-- The bits of `a` at the positions where `b` has none. -/
def clear (a b : Nat) : Nat := a ^^^ (a &&& b)

/-- Bitwise disjunction of two's complement expansions. -/
def disjoin : Int → Int → Int
  | .ofNat a, .ofNat b => .ofNat (a ||| b)
  | .ofNat a, .negSucc b => .negSucc (clear b a)
  | .negSucc a, .ofNat b => .negSucc (clear a b)
  | .negSucc a, .negSucc b => .negSucc (a &&& b)

@[simp] theorem disjoin_natCast (a b : Nat) : disjoin a b = ((a ||| b : Nat) : Int) := rfl

theorem testBit_clear (a b i : Nat) : (clear a b).testBit i = (a.testBit i && !b.testBit i) := by
  simp only [clear, Nat.testBit_xor, Nat.testBit_and]
  cases a.testBit i <;> cases b.testBit i <;> rfl

@[simp] theorem clear_zero (a : Nat) : clear a 0 = a := by simp [clear]

@[simp] theorem disjoin_zero (x : Int) : disjoin x 0 = x := by
  cases x with
  | ofNat a => exact congrArg Int.ofNat (Nat.or_zero a)
  | negSucc a => exact congrArg Int.negSucc (clear_zero a)

@[simp] theorem zero_disjoin (x : Int) : disjoin 0 x = x := by
  cases x with
  | ofNat a => exact congrArg Int.ofNat (Nat.zero_or a)
  | negSucc a => exact congrArg Int.negSucc (clear_zero a)

end Bits

end HalfPrecision
