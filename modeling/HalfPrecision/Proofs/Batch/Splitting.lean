import HalfPrecision.Proofs.Batch.Guarded

/-!
# Batches in two parts

The elements of a batch are converted one after the other, each from what memory holds by then. So a
batch may stop after any element, and a second one, on the rest of both windows, goes on from the
memory that the first has left. This does not depend on how the windows lie to each other.
-/

namespace HalfPrecision

/-- Bytes that follow each other, from an address on. -/
structure ByteWindow where
  start : Nat
  size : Nat
  writable : Bool

namespace ByteWindow

variable (w : ByteWindow)

def buffer : Buffer where
  start := w.start
  itemSize := 1
  axes := [⟨w.size, 1⟩]
  writable := w.writable

def operand : Operand := .buffer w.buffer

/-- The window without its first bytes. -/
def advance (bytes : Nat) : ByteWindow :=
  { w with start := w.start + bytes, size := w.size - bytes }

@[simp] theorem byteSize_buffer : w.buffer.byteSize = w.size := by
  simp [buffer, Buffer.byteSize, Buffer.shape, Buffer.itemCount]

theorem isRow_buffer : w.buffer.IsRow := by
  simp [Buffer.IsRow, buffer, Buffer.isContiguous, Buffer.hasEmptyAxis]

/-- A window serves for everything that it has the bytes for, unless it may not be written. -/
theorem unfit_operand_iff {size count : Nat} {write : Bool} :
    w.operand.Unfit size count write ↔
      (write = true ∧ w.writable = false) ∨ w.size < count * size := by
  have hcontiguous : w.operand.IsContiguous := w.isRow_buffer.1
  have hcount : ¬ (count : Int) < 0 := by omega
  have hbytes : w.operand.byteSize = w.size := w.byteSize_buffer
  rw [Operand.Unfit, hbytes]
  simp only [hcount, hcontiguous, not_true, false_or]
  norm_cast

end ByteWindow

namespace Routine

variable {r : Routine} {p : Platform} {target source : ByteWindow} {k n count : Nat}

/-- An element is the first one of the windows that begin with it. -/
theorem convertAt_add (targetStart sourceStart : Nat) (m : Memory) (k i : Nat) :
    r.convertAt p targetStart sourceStart m (k + i) =
      r.convertAt p (targetStart + k * r.target.size) (sourceStart + k * r.source.size) m i := by
  simp only [convertAt, Nat.add_mul, Nat.add_assoc]

/-- The loop goes on after some elements as it would begin behind them. -/
theorem convertAll_add (targetStart sourceStart k count : Nat) (m : Memory) :
    r.convertAll p targetStart sourceStart (k + count) m =
      r.convertAll p (targetStart + k * r.target.size) (sourceStart + k * r.source.size) count
        (r.convertAll p targetStart sourceStart k m) := by
  induction count with
  | zero => rfl
  | succ count ih => rw [← Nat.add_assoc, convertAll_succ, ih, convertAt_add, convertAll_succ]

theorem ends_convertAll (hp : p.ieee754 = true) (hwritable : target.writable = true)
    (htarget : count * r.target.size ≤ target.size)
    (hsource : count * r.source.size ≤ source.size) (m : Memory) :
    r.Ends p target.operand source.operand count m (.ok true)
      (r.convertAll p target.start source.start count m) := by
  rw [← target.byteSize_buffer] at htarget
  rw [← source.byteSize_buffer] at hsource
  exact ends_of_isRow hp target.isRow_buffer hwritable htarget source.isRow_buffer hsource m

theorem fits_of_not_mustRefuse (h : ¬ r.MustRefuse target.operand source.operand n) :
    target.writable = true ∧ n * r.target.size ≤ target.size ∧
      n * r.source.size ≤ source.size := by
  rw [MustRefuse, ByteWindow.unfit_operand_iff, ByteWindow.unfit_operand_iff] at h
  simpa [and_assoc] using h

/-- A call that is not refused can be split after any of its elements: the rest of the elements is
converted by a call on the rest of both windows, whether they overlap or not. -/
theorem ends_split (hp : p.ieee754 = true) (hk : k ≤ n)
    (hfits : ¬ r.MustRefuse target.operand source.operand n) (m : Memory) :
    ∃ middle m', r.Ends p target.operand source.operand n m (.ok true) m' ∧
      r.Ends p target.operand source.operand k m (.ok true) middle ∧
      r.Ends p (target.advance (k * r.target.size)).operand
        (source.advance (k * r.source.size)).operand (n - k : Nat) middle (.ok true) m' := by
  obtain ⟨hwritable, htarget, hsource⟩ := fits_of_not_mustRefuse hfits
  obtain ⟨rest, rfl⟩ := Nat.exists_eq_add_of_le hk
  have hwhole := ends_convertAll hp hwritable htarget hsource m
  rw [Nat.add_mul] at htarget hsource
  rw [convertAll_add] at hwhole
  have hfirst := ends_convertAll hp hwritable (Nat.le_of_add_right_le htarget)
    (Nat.le_of_add_right_le hsource) m
  have htargetRest : rest * r.target.size ≤ (target.advance (k * r.target.size)).size :=
    Nat.le_sub_of_add_le' htarget
  have hsourceRest : rest * r.source.size ≤ (source.advance (k * r.source.size)).size :=
    Nat.le_sub_of_add_le' hsource
  have hwritableRest : (target.advance (k * r.target.size)).writable = true := hwritable
  refine ⟨_, _, hwhole, hfirst, ?_⟩
  rw [Nat.add_sub_cancel_left]
  exact ends_convertAll hp hwritableRest htargetRest hsourceRest _

/-- The first of two halves becomes a double over both of them, so the second call converts half of
its high word and not the NaN that was there. -/
theorem ends_split_over_source :
    ∃ middle m', halvesToDoubles.Ends { ieee754 := true, highWord := 0 }
        (ByteWindow.mk 0 16 true).operand (ByteWindow.mk 0 4 true).operand 2
        ⟨#[0, 0x3C, 0xFF, 0xFF, 0, 0, 0, 0, 0, 0, 0, 0, 0, 0, 0, 0]⟩ (.ok true) m' ∧
      halvesToDoubles.Ends { ieee754 := true, highWord := 0 }
        (ByteWindow.mk 8 8 true).operand (ByteWindow.mk 2 2 true).operand 1 middle (.ok true) m' ∧
      m'.readWord 4 8 = 0x3FFFC000 := by
  obtain ⟨middle, m', hwhole, -, hrest⟩ :=
    @ends_split halvesToDoubles { ieee754 := true, highWord := 0 } ⟨0, 16, true⟩ ⟨0, 4, true⟩ 1 2
      rfl (by decide) (by decide)
      ⟨#[0, 0x3C, 0xFF, 0xFF, 0, 0, 0, 0, 0, 0, 0, 0, 0, 0, 0, 0]⟩
  refine ⟨middle, m', hwhole, hrest, ?_⟩
  have hcall : halvesToDoubles.call { ieee754 := true, highWord := 0 }
      (ByteWindow.mk 0 16 true).operand (ByteWindow.mk 0 4 true).operand 2
      ⟨#[0, 0x3C, 0xFF, 0xFF, 0, 0, 0, 0, 0, 0, 0, 0, 0, 0, 0, 0]⟩ =
        .ok (true, ⟨#[0, 0, 0xF0, 0x3F, 0, 0, 0, 0, 0, 0xC0, 0xFF, 0x3F, 0, 0, 0, 0]⟩) := by
    decide
  have hmemory := hwhole.2.symm.trans hcall
  obtain rfl : m' = _ := (Prod.mk.inj (Except.ok.inj hmemory)).2
  decide

end Routine

end HalfPrecision
