import HalfPrecision.Memory

/-!
# Exchanging the words of doubles

The two words of a double that lies in memory change places. Each byte moves by the size of a word,
up or down, and the bytes outside of the doubles stay where they are.
-/

namespace HalfPrecision.Memory

variable {m m' : Memory} {start count address i j : Nat}

/-- Where the byte at an address comes from when the words of `count` doubles change places. -/
def exchangedPlace (start count address : Nat) : Nat :=
  if start ≤ address ∧ address < start + count * 8 then
    if (address - start) % 8 < 4 then address + 4 else address - 4
  else address

/-- Memory with the two words of each of `count` doubles exchanged. -/
def exchangeWords (start count : Nat) (m : Memory) : Memory where
  bytes := Array.ofFn fun address : Fin m.bytes.size => m.read (exchangedPlace start count address)

theorem exchangedPlace_of_outside (h : address < start ∨ start + count * 8 ≤ address) :
    exchangedPlace start count address = address := if_neg (by omega)

/-- The bytes of a first word come from the second one. -/
theorem exchangedPlace_first (hi : i < count) (hj : j < 4) :
    exchangedPlace start count (start + i * 8 + j) = start + i * 8 + 4 + j := by
  rw [exchangedPlace, if_pos (by omega), if_pos (by omega)]
  omega

/-- The bytes of a second word come from the first one. -/
theorem exchangedPlace_second (hi : i < count) (hj : j < 4) :
    exchangedPlace start count (start + i * 8 + 4 + j) = start + i * 8 + j := by
  rw [exchangedPlace, if_pos (by omega), if_neg (by omega)]
  omega

@[simp] theorem size_exchangeWords : (m.exchangeWords start count).bytes.size = m.bytes.size :=
  Array.size_ofFn

section LiesIn

variable (h : ∀ i < count, start + (i + 1) * 8 ≤ m.bytes.size)

include h

theorem read_exchangeWords (address : Nat) :
    (m.exchangeWords start count).read address = m.read (exchangedPlace start count address) := by
  by_cases hin : address < m.bytes.size
  · simp [exchangeWords, read, Array.getD, hin]
  · have hout : address < start ∨ start + count * 8 ≤ address := by
      apply Decidable.byContradiction
      intro hwithin
      have := h ((address - start) / 8) (by omega)
      omega
    rw [exchangedPlace_of_outside hout]
    simp [exchangeWords, read, Array.getD, hin]

theorem readWord_exchangeWords (hi : i < count) :
    (m.exchangeWords start count).readWord 4 (start + i * 8) =
        m.readWord 4 (start + i * 8 + 4) ∧
      (m.exchangeWords start count).readWord 4 (start + i * 8 + 4) =
        m.readWord 4 (start + i * 8) := by
  refine ⟨readWord_eq_iff.2 ?_, readWord_eq_iff.2 ?_⟩
  · intro j hj
    rw [read_exchangeWords h, exchangedPlace_first hi hj]
  · intro j hj
    rw [read_exchangeWords h, exchangedPlace_second hi hj]

/-- A memory that differs by exchanged words, and by nothing else. -/
theorem eq_exchangeWords (hsize : m'.bytes.size = m.bytes.size)
    (hframe : ∀ address, address < start ∨ start + count * 8 ≤ address →
      m'.read address = m.read address)
    (hwords : ∀ i < count,
      m'.readWord 4 (start + i * 8) = m.readWord 4 (start + i * 8 + 4) ∧
        m'.readWord 4 (start + i * 8 + 4) = m.readWord 4 (start + i * 8)) :
    m' = m.exchangeWords start count := by
  apply ext_read
  · rw [size_exchangeWords, hsize]
  intro address
  rw [read_exchangeWords h]
  by_cases hout : address < start ∨ start + count * 8 ≤ address
  · rw [exchangedPlace_of_outside hout, hframe address hout]
  · obtain ⟨i, offset, hi, hoffset, rfl⟩ :
        ∃ i offset, i < count ∧ offset < 8 ∧ address = start + i * 8 + offset :=
      ⟨(address - start) / 8, (address - start) % 8, by omega, by omega, by omega⟩
    obtain ⟨hfirst, hsecond⟩ := hwords i hi
    rcases Nat.lt_or_ge offset 4 with hlow | hhigh
    · rw [exchangedPlace_first hi hlow]
      exact readWord_eq_iff.1 hfirst offset hlow
    · obtain ⟨j, rfl⟩ := Nat.exists_eq_add_of_le hhigh
      have hj : j < 4 := by omega
      rw [← Nat.add_assoc, exchangedPlace_second hi hj]
      exact readWord_eq_iff.1 hsecond j hj

end LiesIn

end HalfPrecision.Memory
