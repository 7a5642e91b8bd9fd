import HalfPrecision.Basic

/-!
# Memory

Bytes at the addresses from zero on, and words of several bytes, of which the lowest lies first.
Beyond the last byte memory reads as zero and is not written. A written word is read back if it lies
in memory, whatever lay there before, and the bytes outside of it are kept. What is read at a word
depends on its bytes alone.
-/

namespace HalfPrecision

structure Memory where
  bytes : Array UInt8
deriving DecidableEq

namespace Memory

variable (m : Memory)

def read (address : Nat) : UInt8 := m.bytes.getD address 0

def write (address : Nat) (byte : UInt8) : Memory := ⟨m.bytes.setIfInBounds address byte⟩

/-- The word of `size` bytes at an address, its lowest byte first. -/
def readWord : (size address : Nat) → Nat
  | 0, _ => 0
  | size + 1, address => (m.read address).toNat + 256 * readWord size (address + 1)

/-- Memory with a word of `size` bytes at an address, its lowest byte first. -/
def writeWord (m : Memory) : (size address value : Nat) → Memory
  | 0, _, _ => m
  | size + 1, address, value =>
      (m.write address (UInt8.ofNat (value % 256))).writeWord size (address + 1) (value / 256)

/-- The bytes of a range of addresses. -/
def slice (start size : Nat) : List UInt8 := (List.range size).map fun i => m.read (start + i)

/-! ## Reading after writing -/

@[simp] theorem size_write (address : Nat) (byte : UInt8) :
    (m.write address byte).bytes.size = m.bytes.size := by
  simp [write]

theorem read_write_self {address : Nat} (byte : UInt8) (h : address < m.bytes.size) :
    (m.write address byte).read address = byte := by
  simp [write, read, Array.getD, h]

theorem read_write_of_ne {address other : Nat} (byte : UInt8) (h : other ≠ address) :
    (m.write address byte).read other = m.read other := by
  unfold write read
  rw [Array.getD_eq_getD_getElem?, Array.getD_eq_getD_getElem?, Array.getElem?_setIfInBounds_ne]
  exact h.symm

theorem ext_read {m m' : Memory} (hsize : m.bytes.size = m'.bytes.size)
    (hread : ∀ address, m.read address = m'.read address) : m = m' := by
  obtain ⟨bytes⟩ := m
  obtain ⟨bytes'⟩ := m'
  congr 1
  apply Array.ext hsize
  intro i hi hi'
  have hbyte := hread i
  simpa [read, Array.getD, hi, hi'] using hbyte

@[simp] theorem size_writeWord (size address value : Nat) :
    (m.writeWord size address value).bytes.size = m.bytes.size := by
  induction size generalizing m address value with
  | zero => rfl
  | succ size ih => rw [writeWord, ih, size_write]

/-- The bytes outside of a written word are kept. -/
theorem read_writeWord_of_outside {size address other : Nat} (value : Nat)
    (h : other < address ∨ address + size ≤ other) :
    (m.writeWord size address value).read other = m.read other := by
  induction size generalizing m address value with
  | zero => rfl
  | succ size ih =>
      rw [writeWord, ih _ _ (by omega), read_write_of_ne]
      omega

/-- Words are equal exactly if their bytes are. -/
theorem readWord_eq_iff {m m' : Memory} {size address address' : Nat} :
    m.readWord size address = m'.readWord size address' ↔
      ∀ i < size, m.read (address + i) = m'.read (address' + i) := by
  induction size generalizing address address' with
  | zero => simp [readWord]
  | succ size ih =>
      have hlow := (m.read address).toNat_lt
      have hlow' := (m'.read address').toNat_lt
      have hrest := @ih (address + 1) (address' + 1)
      simp only [Nat.add_assoc, Nat.add_comm 1] at hrest
      rw [Nat.forall_lt_succ_left, ← hrest, ← UInt8.toNat_inj, readWord, readWord]
      simp only [Nat.add_zero]
      omega

/-- What is read at a word depends on its bytes alone. -/
theorem readWord_congr {m m' : Memory} {size address : Nat}
    (h : ∀ i < size, m.read (address + i) = m'.read (address + i)) :
    m.readWord size address = m'.readWord size address :=
  readWord_eq_iff.2 h

/-- A long word is a short one and what follows it. -/
theorem readWord_add (size size' address : Nat) :
    m.readWord (size + size') address =
      m.readWord size address + 256 ^ size * m.readWord size' (address + size) := by
  induction size generalizing address with
  | zero => rw [readWord, Nat.zero_add, Nat.zero_add, Nat.pow_zero, Nat.one_mul, Nat.add_zero]
  | succ size ih =>
      rw [Nat.succ_add, readWord, ih, readWord, Nat.mul_add, ← Nat.mul_assoc, Nat.pow_succ',
        Nat.add_assoc, Nat.add_assoc, Nat.add_comm 1]

theorem readWord_lt (size address : Nat) : m.readWord size address < 256 ^ size := by
  induction size generalizing address with
  | zero => exact Nat.one_pos
  | succ size ih =>
      have hlow := (m.read address).toNat_lt
      have hrest := ih (address + 1)
      rw [readWord, Nat.pow_succ]
      omega

/-- A word that lies in memory is read back as far as it fits. -/
theorem readWord_writeWord_self {size address : Nat} (value : Nat)
    (h : address + size ≤ m.bytes.size) :
    (m.writeWord size address value).readWord size address = value % 256 ^ size := by
  induction size generalizing m address value with
  | zero => rw [Nat.pow_zero, Nat.mod_one]; rfl
  | succ size ih =>
      have hlow : ((m.writeWord (size + 1) address value).read address).toNat = value % 256 := by
        rw [writeWord, read_writeWord_of_outside _ _ (.inl (Nat.lt_succ_self _)),
          read_write_self _ _ (by omega)]
        exact UInt8.toNat_ofNat_of_lt (Nat.mod_lt _ (by decide))
      have hsize : address + 1 + size ≤
          (m.write address (UInt8.ofNat (value % 256))).bytes.size := by
        rw [size_write]
        omega
      have hrest := ih _ (value / 256) hsize
      rw [readWord, hlow, writeWord, hrest, Nat.pow_succ, Nat.mul_comm _ 256, Nat.mod_mul]

/-- Words that do not overlap do not disturb each other. -/
theorem readWord_writeWord_of_disjoint {size address size' address' : Nat} (value : Nat)
    (h : address + size ≤ address' ∨ address' + size' ≤ address) :
    (m.writeWord size' address' value).readWord size address = m.readWord size address := by
  apply readWord_congr
  intro i hi
  apply read_writeWord_of_outside
  omega

end Memory

end HalfPrecision
