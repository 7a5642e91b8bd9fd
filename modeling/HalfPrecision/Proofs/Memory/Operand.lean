import HalfPrecision.Proofs.Memory.Row

/-!
# Unfit operands

An operand has the words that are asked for unless it is unfit: it is no contiguous buffer, it is to
be written and may not be, or it is too short. A negative number of words is never had. The words lie
in the first bytes of the buffer.
-/

namespace HalfPrecision

/-- The addresses of the bytes of a row of words. -/
def Words.bytes (w : Words) : Set Nat := Set.Ico w.start (w.start + w.count * w.wordSize)

namespace Operand

/-- The addresses of the first `size` bytes of a buffer. -/
def window : Operand → Nat → Set Nat
  | buffer b, size => b.window size
  | absent, _ | foreign _, _ => ∅

/-- Whether an operand is a buffer with its items in row-major order and no gaps between them. -/
def IsContiguous : Operand → Prop
  | buffer b => b.isContiguous = true
  | absent | foreign _ => False

def IsReadOnly : Operand → Prop
  | buffer b => b.writable = false
  | absent | foreign _ => False

def byteSize : Operand → Nat
  | buffer b => b.byteSize
  | absent | foreign _ => 0

/-- Whether an operand has a single axis if it is a buffer, or at least no empty one. -/
def IsPlain (operand : Operand) : Prop :=
  ∀ b, operand = buffer b → b.axes.length = 1 ∨ 0 ∉ b.shape

/-- Whether an operand cannot serve for `count` pieces of `size` bytes. -/
def Unfit (operand : Operand) (size : Nat) (count : Int) (write : Bool) : Prop :=
  count < 0 ∨ ¬ operand.IsContiguous ∨ (write = true ∧ operand.IsReadOnly) ∨
    (operand.byteSize : Int) < count * size

instance (operand : Operand) : Decidable operand.IsContiguous := by
  cases operand <;> unfold IsContiguous <;> infer_instance

instance (operand : Operand) : Decidable operand.IsReadOnly := by
  cases operand <;> unfold IsReadOnly <;> infer_instance

instance (operand : Operand) (size : Nat) (count : Int) (write : Bool) :
    Decidable (operand.Unfit size count write) :=
  inferInstanceAs (Decidable (_ ∨ _))

variable {operand : Operand} {wordSize : Nat} {count : Int} {write : Bool}

theorem isPlain_of_single_axis {b : Buffer} (h : b.axes.length = 1) : (buffer b).IsPlain := by
  rintro _ ⟨⟩
  exact .inl h

theorem IsPlain.isRow {b : Buffer} (h : (buffer b).IsPlain) (hcontiguous : b.isContiguous = true) :
    b.IsRow := by
  refine ⟨hcontiguous, ?_⟩
  rcases h b rfl with hsingle | hnonempty
  · simp [Buffer.hasEmptyAxis, hsingle]
  · simp [Buffer.hasEmptyAxis, hnonempty]

theorem isPlain_of_hasEmptyAxis_eq_false {b : Buffer} (h : b.hasEmptyAxis = false) :
    (buffer b).IsPlain := by
  rintro _ ⟨⟩
  simpa [Buffer.hasEmptyAxis, or_iff_not_imp_left] using h

theorem contiguous?_eq_ok {b : Buffer} (h : operand.contiguous? = .ok b) :
    operand = buffer b ∧ b.IsRow := by
  unfold contiguous? at h
  split at h
  · cases h
  · cases h
  next b' =>
    split at h
    · cases h
    next hcontiguous =>
      split at h
      · cases h
      next hempty =>
        obtain rfl := Except.ok.inj h
        exact ⟨rfl, by simpa using hcontiguous, by simpa using hempty⟩

/-- An operand that is there and unfit has no words. -/
theorem exists_words_eq_error (name : String) (hpresent : operand ≠ absent)
    (h : operand.Unfit wordSize count write) :
    ∃ e, operand.words wordSize count write name = .error e := by
  unfold words
  rw [if_neg hpresent]
  split
  · exact ⟨_, rfl⟩
  next hcount =>
    cases hbuffer : operand.contiguous? with
    | error fault => exact ⟨_, rfl⟩
    | ok b =>
        obtain ⟨rfl, hrow⟩ := contiguous?_eq_ok hbuffer
        rcases h with hnegative | hgaps | ⟨rfl, hreadOnly⟩ | hshort
        · exact absurd hnegative hcount
        · exact absurd hrow.1 hgaps
        · have hwritable : b.writable = false := hreadOnly
          exact ⟨_, if_pos (by simp [hwritable])⟩
        · have hsize : b.byteSize < count.toNat * wordSize := by
            rw [byteSize, ← Int.toNat_of_nonneg (not_lt.1 hcount)] at hshort
            exact_mod_cast hshort
          simp only [if_pos hsize]
          split
          · exact ⟨_, rfl⟩
          · exact ⟨_, rfl⟩

theorem exists_words_eq_ok (name : String) (hplain : operand.IsPlain)
    (h : ¬ operand.Unfit wordSize count write) :
    ∃ w, operand.words wordSize count write name = .ok (some w) ∧ w.wordSize = wordSize ∧
      w.count = count.toNat ∧ (write = true → w.writable = true) := by
  simp only [Unfit, not_or, not_and, not_not, not_lt] at h
  obtain ⟨hcount, hcontiguous, hwritable, hsize⟩ := h
  obtain ⟨count, rfl⟩ := Int.eq_ofNat_of_zero_le hcount
  cases operand with
  | absent => exact absurd hcontiguous id
  | foreign typeName => exact absurd hcontiguous id
  | buffer b =>
      have hwrite : write = true → b.writable = true := by
        intro hwrite
        simpa [IsReadOnly] using hwritable hwrite
      have hfits : count * wordSize ≤ b.byteSize := by
        rw [byteSize] at hsize
        exact_mod_cast hsize
      have hwords := words_eq_ok name (hplain.isRow hcontiguous) hwrite hfits
      refine ⟨_, hwords, rfl, rfl, ?_⟩
      intro hw
      simp [hwrite hw]

theorem bytes_of_words_eq_ok {name : String} {w : Words}
    (h : operand.words wordSize count write name = .ok (some w)) :
    w.bytes = operand.window (count.toNat * wordSize) := by
  unfold words at h
  split at h
  · cases h
  split at h
  · cases h
  split at h
  · cases h
  next b hrow =>
    obtain ⟨rfl, _⟩ := contiguous?_eq_ok hrow
    simp only at h
    split at h
    · cases h
    split at h
    · cases h
    · obtain rfl := Option.some.inj (Except.ok.inj h)
      rfl

end Operand

end HalfPrecision
