import HalfPrecision.Memory.Words
import Mathlib.Data.List.Basic
import Mathlib.Order.Interval.Set.Defs
import Mathlib.Tactic.Ring

/-!
# Rows of bytes

A buffer that is taken for a row of bytes has its bytes one after the other from the address of its
first item on, however its items are arranged along axes. Its words lie in the same place.
-/

namespace HalfPrecision

/-- Rows of equal length, one after the other, are one row. -/
theorem flatMap_range_mul (count size : Nat) :
    ((List.range count).flatMap fun i => (List.range size).map (i * size + ·)) =
      List.range (count * size) := by
  induction count with
  | zero => rw [Nat.zero_mul, List.range_zero, List.flatMap_nil]
  | succ count ih =>
      rw [List.range_succ, List.flatMap_append, ih, List.flatMap_singleton, Nat.succ_mul,
        List.range_add]

namespace Buffer

/-- The addresses of dense items are evenly spaced. -/
theorem itemAddresses_of_dense {itemSize : Nat} {axes : List Axis} (h : dense itemSize axes = true)
    (start : Int) :
    itemAddresses start axes =
      (List.range (itemCount (axes.map Axis.extent))).map
        fun i => start + (i * itemSize : Nat) := by
  induction axes generalizing start with
  | nil => simp [itemAddresses, itemCount]
  | cons axis rest ih =>
      simp only [dense, Bool.and_eq_true, Bool.or_eq_true, decide_eq_true_eq, beq_iff_eq] at h
      obtain ⟨hrest, hstride⟩ := h
      have hcount : itemCount ((axis :: rest).map Axis.extent) =
          axis.extent * itemCount (rest.map Axis.extent) := rfl
      rw [itemAddresses, hcount, ← flatMap_range_mul, List.map_flatMap]
      apply List.flatMap_congr
      intro i hi
      rw [ih hrest, List.map_map]
      apply List.map_congr_left
      intro j _
      -- A stride along a single item is never used.
      rcases hstride with hsingle | hstride
      · have hzero : i = 0 := by
          have := List.mem_range.1 hi
          omega
        simp [hzero]
      · rw [hstride]
        simp only [Function.comp_apply]
        push_cast
        ring

variable (b : Buffer)

/-- Whether the bytes of a buffer can be taken for a row. -/
def IsRow : Prop := b.isContiguous = true ∧ b.hasEmptyAxis = false

instance : Decidable b.IsRow := inferInstanceAs (Decidable (_ ∧ _))

variable {b}

/-- The bytes of a contiguous buffer follow each other. -/
theorem byteAddresses_of_isContiguous (h : b.isContiguous = true) :
    b.byteAddresses = List.range' b.start b.byteSize := by
  by_cases hempty : b.byteSize = 0
  · rw [byteAddresses, if_pos hempty, hempty, List.range'_zero]
  have hdense : dense b.itemSize b.axes = true := by
    unfold isContiguous at h
    split at h
    next haxes => rw [haxes]; rfl
    next axis haxes =>
      simp only [Bool.or_eq_true, beq_iff_eq] at h
      rw [haxes]
      simp only [dense, Bool.true_and, Bool.or_eq_true, decide_eq_true_eq, beq_iff_eq]
      rcases h with hsingle | hstride
      · exact .inl hsingle.le
      · exact .inr (by simpa [itemCount] using hstride)
    next =>
      simpa [hempty] using h
  rw [byteAddresses_eq, itemAddresses_of_dense hdense, List.flatMap_map, List.range'_eq_map_range,
    byteSize, Nat.mul_comm, ← flatMap_range_mul, List.map_flatMap]
  apply List.flatMap_congr
  intro i _
  rw [List.map_map]
  apply List.map_congr_left
  intro j _
  simp only [Function.comp_apply]
  omega

/-- Whether all bytes of a buffer lie in memory. -/
def LiesIn (b : Buffer) (m : Memory) : Prop := ∀ address ∈ b.byteAddresses, address < m.bytes.size

instance (b : Buffer) (m : Memory) : Decidable (b.LiesIn m) :=
  inferInstanceAs (Decidable (∀ address ∈ b.byteAddresses, address < m.bytes.size))

/-- The addresses of the first `size` bytes of a row. -/
def window (b : Buffer) (size : Nat) : Set Nat := Set.Ico b.start (b.start + size)

/-- A row that lies in memory ends there. -/
theorem LiesIn.end_le {m : Memory} (h : b.LiesIn m) (hrow : b.IsRow) (hpos : 0 < b.byteSize) :
    b.start + b.byteSize ≤ m.bytes.size := by
  have hlast : b.start + (b.byteSize - 1) ∈ b.byteAddresses := by
    rw [byteAddresses_of_isContiguous hrow.1, List.mem_range'_1]
    omega
  have := h _ hlast
  omega

end Buffer

namespace Words

variable {w : Words} {i j : Nat}

/-- A word ends before the words that follow it. -/
theorem address_add_le (h : i < j) : w.address i + w.wordSize ≤ w.address j := by
  have hend := Nat.mul_le_mul_right w.wordSize (Nat.succ_le_of_lt h)
  rw [Nat.succ_mul] at hend
  rw [address, address]
  omega

theorem end_le (h : i < w.count) :
    w.address i + w.wordSize ≤ w.start + w.count * w.wordSize := address_add_le h

end Words

/-- The words of a row that is long enough, and writable if it is to be written. -/
theorem Operand.words_eq_ok {b : Buffer} {wordSize count : Nat} {write : Bool} (name : String)
    (hrow : b.IsRow) (hwrite : write = true → b.writable = true)
    (hsize : count * wordSize ≤ b.byteSize) :
    (Operand.buffer b).words wordSize count write name =
      .ok (some { start := b.start, wordSize, count, writable := b.writable || count = 0 }) := by
  have hcontiguous : (Operand.buffer b).contiguous? = .ok b := by
    simp [contiguous?, hrow.1, hrow.2]
  have hwritable : ¬ (write && !b.writable) = true := by
    cases write with
    | false => simp
    | true => simp [hwrite rfl]
  unfold words
  rw [if_neg (by simp), if_neg (by omega), hcontiguous]
  simp [hwritable, hsize.not_gt]

end HalfPrecision
