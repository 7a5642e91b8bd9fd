import HalfPrecision.Batch
import HalfPrecision.Memory
import HalfPrecision.Proofs.Conversion.Narrowing
import HalfPrecision.Proofs.Conversion.Widening

/-!
# Batches convert a snapshot

Loading an element depends on its own bytes alone, and storing one changes no others. What was
stored is loaded again if it fits. Both hold for doubles whichever of their words is the high one.

A batch whose writes do not run into elements that it has not read yet gives what all elements held
before it began, converted one by one. No byte outside the converted elements changes.
-/

namespace HalfPrecision

theorem Platform.highWord_add_lowWord (p : Platform) : (p.highWord : Nat) + p.lowWord = 1 := by
  have hwords : ∀ high : Fin 2, (high : Nat) + ((1 - high : Fin 2) : Nat) = 1 := by decide
  exact hwords p.highWord

namespace Element

variable (e : Element) (p : Platform)

@[simp] theorem size_half : half.size = 2 := rfl

@[simp] theorem size_single : single.size = 4 := rfl

@[simp] theorem size_double : double.size = 8 := rfl

theorem size_pos : 0 < e.size := by cases e <;> simp

theorem load_congr {m m' : Memory} {address : Nat}
    (h : ∀ i < e.size, m.read (address + i) = m'.read (address + i)) :
    e.load p m address = e.load p m' address := by
  cases e with
  | half => exact Memory.readWord_congr h
  | single => exact Memory.readWord_congr h
  | double =>
      have hwords := p.highWord_add_lowWord
      have hword : ∀ word ≤ 1,
          m.readWord 4 (address + 4 * word) = m'.readWord 4 (address + 4 * word) := by
        intro word hword
        apply Memory.readWord_congr
        intro i hi
        rw [Nat.add_assoc]
        apply h
        change 4 * word + i < 8
        omega
      simp only [load]
      rw [hword _ (by omega), hword _ (by omega)]

/-- With the low word first an element is a single word. -/
theorem load_native (m : Memory) (address : Nat) :
    e.load .native m address = m.readWord e.size address := by
  cases e with
  | half => rfl
  | single => rfl
  | double =>
      change m.readWord 4 (address + 4) * 256 ^ 4 + m.readWord 4 address =
        m.readWord (4 + 4) address
      rw [Memory.readWord_add, Nat.mul_comm, Nat.add_comm]

@[simp] theorem size_store (m : Memory) (address pattern : Nat) :
    (e.store p m address pattern).bytes.size = m.bytes.size := by
  cases e <;> simp [store]

theorem read_store_of_outside (m : Memory) {address other : Nat} (pattern : Nat)
    (h : other < address ∨ address + e.size ≤ other) :
    (e.store p m address pattern).read other = m.read other := by
  cases e with
  | half => exact m.read_writeWord_of_outside _ h
  | single => exact m.read_writeWord_of_outside _ h
  | double =>
      have hwords := p.highWord_add_lowWord
      have hsize : double.size = 8 := rfl
      rw [store, Memory.read_writeWord_of_outside _ _ (by omega),
        Memory.read_writeWord_of_outside _ _ (by omega)]

theorem load_store_self (m : Memory) {address pattern : Nat}
    (h : address + e.size ≤ m.bytes.size) (hfits : pattern < 256 ^ e.size) :
    e.load p (e.store p m address pattern) address = pattern := by
  cases e with
  | half => exact (m.readWord_writeWord_self pattern h).trans (Nat.mod_eq_of_lt hfits)
  | single => exact (m.readWord_writeWord_self pattern h).trans (Nat.mod_eq_of_lt hfits)
  | double =>
      have hwords := p.highWord_add_lowWord
      have hsize : double.size = 8 := rfl
      have hbase : wordBase = 256 ^ 4 := rfl
      have hhigh : pattern / wordBase < 256 ^ 4 := by
        rw [Nat.div_lt_iff_lt_mul (by decide)]
        exact hfits
      have hlow : pattern % wordBase < 256 ^ 4 := Nat.mod_lt _ (by decide)
      rw [load, store, Memory.readWord_writeWord_of_disjoint _ _ (by omega),
        Memory.readWord_writeWord_self _ _ (by omega),
        Memory.readWord_writeWord_self _ _ (by rw [Memory.size_writeWord]; omega),
        Nat.mod_eq_of_lt hhigh, Nat.mod_eq_of_lt hlow]
      exact Nat.div_add_mod' _ _

end Element

namespace Routine

/-- A converted pattern fits the element it is stored in. -/
theorem convert_lt (r : Routine) (pattern : Nat) : r.convert pattern < 256 ^ r.target.size := by
  cases r with
  | singlesToHalves => exact Layout.narrowPattern_lt Layout.half_extends_single pattern
  | doublesToHalves => exact Layout.narrowPattern_lt Layout.half_extends_double pattern
  | halvesToSingles =>
      exact Layout.half_extends_single.toNat_widenPattern_lt (by decide) pattern
  | halvesToDoubles =>
      exact Layout.half_extends_double.toNat_widenPattern_lt (by decide) pattern

variable (r : Routine) (p : Platform) (targetStart sourceStart : Nat)

/-- No byte of an element is written before the element is read. -/
def ReadsAhead (count : Nat) : Prop :=
  ∀ i < count, ∀ address, sourceStart + i * r.source.size ≤ address →
    address < sourceStart + (i + 1) * r.source.size →
      address < targetStart ∨ targetStart + i * r.target.size ≤ address

/-- What `count` elements converted from `m` leave in memory. -/
structure Converted (count : Nat) (m m' : Memory) : Prop where
  /-- The elements of the target are those of the source, as they were before, converted. -/
  elements : ∀ i < count, r.target.load p m' (targetStart + i * r.target.size) =
    r.convert (r.source.load p m (sourceStart + i * r.source.size))
  /-- The other bytes are kept. -/
  frame : ∀ address, address < targetStart ∨ targetStart + count * r.target.size ≤ address →
    m'.read address = m.read address
  size : m'.bytes.size = m.bytes.size

theorem convertAll_succ (count : Nat) (m : Memory) :
    r.convertAll p targetStart sourceStart (count + 1) m =
      r.convertAt p targetStart sourceStart
        (r.convertAll p targetStart sourceStart count m) count := by
  rw [convertAll, List.range_succ, List.foldl_append]
  rfl

variable {r p targetStart sourceStart}

/-- One more element is converted from what it held at first, and leaves the others alone. -/
theorem Converted.succ {n : Nat} {m m' : Memory}
    (h : r.Converted p targetStart sourceStart n m m')
    (hfits : targetStart + (n + 1) * r.target.size ≤ m.bytes.size)
    (hahead : r.ReadsAhead targetStart sourceStart (n + 1)) :
    r.Converted p targetStart sourceStart (n + 1) m
      (r.convertAt p targetStart sourceStart m' n) := by
  have hsource : r.source.load p m' (sourceStart + n * r.source.size) =
      r.source.load p m (sourceStart + n * r.source.size) := by
    apply Element.load_congr
    intro i hi
    apply h.frame
    apply hahead n (Nat.lt_succ_self n)
    · omega
    · rw [Nat.succ_mul]
      omega
  rw [Nat.succ_mul] at hfits
  rw [convertAt, hsource]
  refine ⟨?_, ?_, ?_⟩
  · intro i hi
    rcases Nat.lt_or_eq_of_le (Nat.le_of_lt_succ hi) with hlt | rfl
    · have hnext := Nat.mul_le_mul_right r.target.size (Nat.succ_le_of_lt hlt)
      rw [Nat.succ_mul] at hnext
      rw [← h.elements i hlt]
      apply Element.load_congr
      intro j hj
      apply Element.read_store_of_outside
      omega
    · apply Element.load_store_self
      · rw [h.size]
        omega
      · exact r.convert_lt _
  · intro address houtside
    rw [Nat.succ_mul] at houtside
    rw [Element.read_store_of_outside _ _ _ _ (by omega)]
    exact h.frame address (by omega)
  · rw [Element.size_store, h.size]

theorem converted_zero {m : Memory} : r.Converted p targetStart sourceStart 0 m m :=
  ⟨fun i hi => absurd hi (Nat.not_lt_zero i), fun _ _ => rfl, rfl⟩

/-- A batch that reads ahead converts what its elements held at first. -/
theorem converted_convertAll {count : Nat} {m : Memory}
    (hfits : targetStart + count * r.target.size ≤ m.bytes.size)
    (hahead : r.ReadsAhead targetStart sourceStart count) :
    r.Converted p targetStart sourceStart count m
      (r.convertAll p targetStart sourceStart count m) := by
  induction count with
  | zero => exact converted_zero
  | succ n ih =>
      have hfitsPrefix : targetStart + n * r.target.size ≤ m.bytes.size := by
        rw [Nat.succ_mul] at hfits
        omega
      have haheadPrefix : r.ReadsAhead targetStart sourceStart n := by
        intro i hi
        exact hahead i (Nat.lt_succ_of_lt hi)
      have hprefix := ih hfitsPrefix haheadPrefix
      rw [convertAll_succ]
      exact hprefix.succ hfits hahead

end Routine

end HalfPrecision
