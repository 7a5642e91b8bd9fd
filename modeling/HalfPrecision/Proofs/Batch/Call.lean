import HalfPrecision.Proofs.Batch.Snapshot
import HalfPrecision.Proofs.Memory.Row
import Mathlib.Order.CompletePartialOrder
import Mathlib.Order.Interval.Set.Disjoint

/-!
# Batches on buffers

A call with rows that are long enough goes through and converts their elements from the start. If
the bytes in use have none in common, the elements are converted from what they held before the
call, and all other bytes are kept.

Elements are read and written in turn, with different strides. Where rows overlap, a narrowing batch
writes more slowly than it reads, so only its first step can run into what is still to be read. A
widening batch writes faster, and its last step is the one that decides.
-/

namespace HalfPrecision.Routine

variable {r : Routine} {p : Platform}

/-- Elements that lie apart from the target are never written. -/
theorem readsAhead_of_disjoint {target source : Buffer} {count : Nat}
    (h : Disjoint (target.window (count * r.target.size))
      (source.window (count * r.source.size))) :
    r.ReadsAhead target.start source.start count := by
  intro i hi address hstart hend
  have htarget := Nat.mul_le_mul_right r.target.size hi.le
  have hsource : (i + 1) * r.source.size ≤ count * r.source.size :=
    Nat.mul_le_mul_right r.source.size hi
  by_contra hwritten
  simp only [not_or, not_lt, not_le] at hwritten
  have hin : address ∈ target.window (count * r.target.size) :=
    ⟨hwritten.1, by omega⟩
  exact Set.disjoint_left.1 h hin ⟨by omega, by omega⟩

/-- The words of as many elements as a row holds. -/
theorem elements_eq_ok {b : Buffer} (e : Element) {count : Nat} (write : Bool) (name : String)
    (hrow : b.IsRow) (hwrite : write = true → b.writable = true)
    (hsize : count * e.size ≤ b.byteSize) :
    elements (.buffer b) e count write name =
      .ok (some
        { start := b.start
          wordSize := e.wordSize
          count := e.wordCount * count
          writable := b.writable || e.wordCount * count = 0 }) := by
  have hwords : e.wordCount * count * e.wordSize ≤ b.byteSize := by
    calc
      e.wordCount * count * e.wordSize = count * e.size := by
        rw [Element.size]
        ring
      _ ≤ b.byteSize := hsize
  rw [elements, ← Int.natCast_mul]
  exact Operand.words_eq_ok name hrow hwrite hwords

/-- A call on two rows converts from one to the other. -/
theorem call_eq_ok (hp : p.ieee754 = true) {target source : Buffer} {count : Nat}
    (htarget : target.IsRow) (hwritable : target.writable = true)
    (htargetSize : count * r.target.size ≤ target.byteSize)
    (hsource : source.IsRow) (hsourceSize : count * r.source.size ≤ source.byteSize)
    (m : Memory) :
    r.call p (.buffer target) (.buffer source) count m =
      .ok (true, r.convertAll p target.start source.start count m) := by
  have hout := elements_eq_ok r.target true "target" htarget (fun _ => hwritable) htargetSize
  have hsrc := elements_eq_ok r.source false "source" hsource
    (fun hfalse => absurd hfalse Bool.false_ne_true) hsourceSize
  unfold call
  simp only [hp, hout, hsrc]
  rfl

/-- A call on rows that share no byte in use converts what the source held before, and leaves every
byte outside the converted elements alone. -/
theorem call_converts (hp : p.ieee754 = true) {target source : Buffer} {count : Nat} {m : Memory}
    (htarget : target.IsRow) (hwritable : target.writable = true) (hlies : target.LiesIn m)
    (htargetSize : count * r.target.size ≤ target.byteSize)
    (hsource : source.IsRow) (hsourceSize : count * r.source.size ≤ source.byteSize)
    (hdisjoint : Disjoint (target.window (count * r.target.size))
      (source.window (count * r.source.size))) :
    ∃ m', r.call p (.buffer target) (.buffer source) count m = .ok (true, m') ∧
      r.Converted p target.start source.start count m m' := by
  refine ⟨_, call_eq_ok hp htarget hwritable htargetSize hsource hsourceSize m, ?_⟩
  rcases Nat.eq_zero_or_pos count with rfl | hcount
  · exact converted_zero
  · apply converted_convertAll
    · have hpos := Nat.mul_pos hcount r.target.size_pos
      have hend := hlies.end_le htarget (hpos.trans_le htargetSize)
      omega
    · exact readsAhead_of_disjoint hdisjoint

/-- The doubles one and minus two, the high word first, are converted before a byte that is kept. -/
theorem call_converts_two_doubles :
    ∃ m', doublesToHalves.call { ieee754 := true, highWord := 0 }
        (.buffer { start := 16, itemSize := 2, axes := [⟨2, 2⟩], writable := true })
        (.buffer { start := 0, itemSize := 8, axes := [⟨2, 8⟩], writable := false }) 2
        ⟨#[0, 0, 0xF0, 0x3F, 0, 0, 0, 0, 0, 0, 0, 0xC0, 0, 0, 0, 0, 1, 2, 3, 4, 5]⟩ =
          .ok (true, m') ∧
      m'.readWord 2 16 = 0x3C00 ∧ m'.readWord 2 18 = 0xC000 ∧ m'.read 20 = 5 := by
  obtain ⟨m', hcall, hconverted⟩ :=
    @call_converts doublesToHalves { ieee754 := true, highWord := 0 } rfl
      { start := 16, itemSize := 2, axes := [⟨2, 2⟩], writable := true }
      { start := 0, itemSize := 8, axes := [⟨2, 8⟩], writable := false } 2
      ⟨#[0, 0, 0xF0, 0x3F, 0, 0, 0, 0, 0, 0, 0, 0xC0, 0, 0, 0, 0, 1, 2, 3, 4, 5]⟩
      (by decide) rfl (by decide) (by decide) (by decide) (by decide)
      (Set.Ico_disjoint_Ico.2 (by decide))
  refine ⟨m', hcall, ?_, ?_, ?_⟩
  · exact (hconverted.elements 0 (by decide)).trans (by decide)
  · exact (hconverted.elements 1 (by decide)).trans (by decide)
  · exact (hconverted.frame 20 (by decide)).trans (by decide)

/-! ## Rows that overlap -/

variable {targetStart sourceStart count : Nat}

/-- Whether no byte is written before the element that holds it is read. -/
def PlacedSafely (r : Routine) (targetStart sourceStart count : Nat) : Prop :=
  match r with
  | singlesToHalves | doublesToHalves => targetStart ≤ sourceStart + r.source.size - 2
  | halvesToSingles | halvesToDoubles =>
      targetStart + ((r.target.size : Int) - 2) * ((count : Int) - 1) ≤ sourceStart

/-- Nothing is written before the first element is read, so it may lie anywhere. -/
theorem readsAhead_of_le
    (h : ∀ i < count, 0 < i →
      targetStart + i * r.target.size ≤ sourceStart + i * r.source.size) :
    r.ReadsAhead targetStart sourceStart count := by
  intro i hi address hstart _
  rcases Nat.eq_zero_or_pos i with rfl | hpos
  · omega
  · have hwritten := h i hi hpos
    exact .inr (hwritten.trans hstart)

theorem PlacedSafely.readsAhead (h : r.PlacedSafely targetStart sourceStart count) :
    r.ReadsAhead targetStart sourceStart count := by
  apply readsAhead_of_le
  intro i hi hpos
  cases r <;> simp [PlacedSafely, source, target] at h ⊢ <;> omega

/-- Narrowing may take place where the source lies. -/
theorem placedSafely_of_start_eq (hnarrow : r.target = .half) (h : targetStart = sourceStart) :
    r.PlacedSafely targetStart sourceStart count := by
  cases r <;> simp [PlacedSafely, source, target] at hnarrow ⊢ <;> omega

/-- Widening may take place where the halves lie at the end. -/
theorem placedSafely_of_end_eq (hwiden : r.source = .half)
    (h : targetStart + count * r.target.size = sourceStart + count * r.source.size) :
    r.PlacedSafely targetStart sourceStart count := by
  cases r <;> simp [PlacedSafely, source, target] at hwiden h ⊢ <;> omega

/-- A call on rows that overlap converts what the source held before if the rows are placed safely;
in particular a narrowing one if they begin together, and a widening one if they end together. No
byte outside the converted elements changes. -/
theorem call_converts_of_placedSafely (hp : p.ieee754 = true) {target source : Buffer}
    {m : Memory} (htarget : target.IsRow) (hwritable : target.writable = true)
    (hlies : target.LiesIn m) (htargetSize : count * r.target.size ≤ target.byteSize)
    (hsource : source.IsRow) (hsourceSize : count * r.source.size ≤ source.byteSize)
    (hplaced : r.PlacedSafely target.start source.start count ∨
      r.target = .half ∧ target.start = source.start ∨
      r.source = .half ∧ target.start + count * r.target.size =
        source.start + count * r.source.size) :
    ∃ m', r.call p (.buffer target) (.buffer source) count m = .ok (true, m') ∧
      r.Converted p target.start source.start count m m' := by
  have hsafe : r.PlacedSafely target.start source.start count := by
    rcases hplaced with hsafe | ⟨hnarrow, hstart⟩ | ⟨hwiden, hend⟩
    · exact hsafe
    · exact placedSafely_of_start_eq hnarrow hstart
    · exact placedSafely_of_end_eq hwiden hend
  refine ⟨_, call_eq_ok hp htarget hwritable htargetSize hsource hsourceSize m, ?_⟩
  rcases Nat.eq_zero_or_pos count with rfl | hcount
  · exact converted_zero
  · apply converted_convertAll _ hsafe.readsAhead
    have hpos := Nat.mul_pos hcount r.target.size_pos
    have hend := hlies.end_le htarget (hpos.trans_le htargetSize)
    omega

/-- The halves one and minus two lie at an odd address and share all their bytes with the singles
that they become. -/
theorem call_converts_two_halves_in_place :
    ∃ m', halvesToSingles.call { ieee754 := true, highWord := 1 }
        (.buffer { start := 1, itemSize := 1, axes := [⟨8, 1⟩], writable := true })
        (.buffer { start := 3, itemSize := 2, axes := [⟨2, 2⟩], writable := true }) 2
        ⟨#[7, 0, 0, 0, 0x3C, 0, 0xC0, 0, 0, 8]⟩ = .ok (true, m') ∧
      m'.readWord 4 1 = 0x3F800000 ∧ m'.readWord 4 5 = 0xC0000000 ∧
      m'.read 0 = 7 ∧ m'.read 9 = 8 := by
  obtain ⟨m', hcall, hconverted⟩ :=
    @call_converts_of_placedSafely halvesToSingles { ieee754 := true, highWord := 1 } 2 rfl
      { start := 1, itemSize := 1, axes := [⟨8, 1⟩], writable := true }
      { start := 3, itemSize := 2, axes := [⟨2, 2⟩], writable := true }
      ⟨#[7, 0, 0, 0, 0x3C, 0, 0xC0, 0, 0, 8]⟩
      (by decide) rfl (by decide) (by decide) (by decide) (by decide)
      (.inl (by simp [PlacedSafely, target]))
  refine ⟨m', hcall, ?_, ?_, ?_, ?_⟩
  · exact (hconverted.elements 0 (by decide)).trans (by decide)
  · exact (hconverted.elements 1 (by decide)).trans (by decide)
  · exact (hconverted.frame 0 (by decide)).trans (by decide)
  · exact (hconverted.frame 9 (by decide)).trans (by decide)

end HalfPrecision.Routine
