import HalfPrecision.Batch.Arrays
import HalfPrecision.Proofs.Batch.Snapshot

/-!
# Converting cells

Cells are placed in memory one after the other, the low word of a double first, converted to the
bytes behind them and read back there. No byte of them is written, so what is read back is each
cell converted.
-/

namespace HalfPrecision

namespace Layout

variable (S T : Layout) (n : Nat)

theorem narrowPattern_mod :
    narrowPattern S T (n % 2 ^ S.width : Nat) = narrowPattern S T n := by
  rw [narrowPattern, narrowPattern, fields_mod]

theorem widenPattern_mod : widenPattern S T (n % 2 ^ S.width : Nat) = widenPattern S T n := by
  have hparts : widenParts S T (n % 2 ^ S.width : Nat) = widenParts S T n := by
    rw [widenParts, widenParts, fields_mod]
  rw [widenPattern, widenPattern, hparts]

end Layout

/-- A conversion sees no more of a pattern than its element holds. -/
theorem Routine.convert_mod (r : Routine) (pattern : Nat) :
    r.convert (pattern % 256 ^ r.source.size) = r.convert pattern := by
  cases r with
  | singlesToHalves => exact Layout.narrowPattern_mod .single .half pattern
  | doublesToHalves => exact Layout.narrowPattern_mod .double .half pattern
  | halvesToSingles => exact congrArg Int.toNat (Layout.widenPattern_mod .half .single pattern)
  | halvesToDoubles => exact congrArg Int.toNat (Layout.widenPattern_mod .half .double pattern)

namespace Arrays

variable {size address : Nat} {cells : List Nat}

@[simp] theorem size_place (m : Memory) :
    (place size m address cells).bytes.size = m.bytes.size := by
  induction cells generalizing m address with
  | nil => rfl
  | cons pattern rest ih => rw [place, ih, Memory.size_writeWord]

theorem read_place_of_lt (m : Memory) {other : Nat} (h : other < address) :
    (place size m address cells).read other = m.read other := by
  induction cells generalizing m address with
  | nil => rfl
  | cons pattern rest ih =>
      rw [place, ih _ (Nat.lt_add_right size h), Memory.read_writeWord_of_outside _ _ (.inl h)]

/-- A placed pattern is read back as far as it fits. -/
theorem readWord_place {m : Memory} (h : address + cells.length * size ≤ m.bytes.size) {i : Nat}
    (hi : i < cells.length) :
    (place size m address cells).readWord size (address + i * size) = cells[i] % 256 ^ size := by
  induction cells generalizing m address i with
  | nil => exact absurd hi (Nat.not_lt_zero i)
  | cons pattern rest ih =>
      rw [List.length_cons, Nat.succ_mul] at h
      rw [place]
      cases i with
      | zero =>
          have hkept : (place size (m.writeWord size address pattern) (address + size)
              rest).readWord size address =
                (m.writeWord size address pattern).readWord size address := by
            apply Memory.readWord_congr
            intro k hk
            exact read_place_of_lt _ (Nat.add_lt_add_left hk address)
          rw [Nat.zero_mul, Nat.add_zero, hkept, m.readWord_writeWord_self pattern (by omega),
            List.getElem_cons_zero]
      | succ i =>
          have hfits : address + size + rest.length * size ≤
              (m.writeWord size address pattern).bytes.size := by
            rw [Memory.size_writeWord]
            omega
          rw [Nat.succ_mul, Nat.add_comm (i * size), ← Nat.add_assoc,
            ih hfits (Nat.lt_of_succ_lt_succ hi), List.getElem_cons_succ]

/-- Cells are converted one by one. -/
theorem convertCells_native (r : Routine) (cells : List Nat) :
    convertCells r .native cells = cells.map r.convert := by
  have hahead : r.ReadsAhead (cells.length * r.source.size) 0 cells.length := by
    intro i hi address _ hend
    have hsource := Nat.mul_le_mul_right r.source.size (Nat.succ_le_of_lt hi)
    rw [Nat.succ_eq_add_one] at hsource
    exact .inl (by omega)
  apply List.ext_getElem
  · rw [convertCells, List.length_map, List.length_range, List.length_map]
  intro i hi hi'
  have hcell : i < cells.length := by simpa using hi'
  have hsource := @readWord_place r.source.size 0 cells
    ⟨Array.replicate (cells.length * r.source.size + cells.length * r.target.size) 0⟩
    (by simp) i hcell
  rw [← Element.load_native] at hsource
  rw [List.getElem_map, ← r.convert_mod, ← hsource]
  simp only [convertCells, List.getElem_map, List.getElem_range, ← Element.load_native]
  exact (Routine.converted_convertAll (by simp) hahead).elements i hcell

end Arrays

end HalfPrecision
