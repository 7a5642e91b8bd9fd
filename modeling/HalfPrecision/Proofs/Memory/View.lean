import HalfPrecision.Memory
import HalfPrecision.Proofs.Memory.Operand

/-!
# Words that share the memory of a buffer

The words of a buffer are seen through it and it is changed through them. An assignment either stores
the bytes of one word and nothing else, or is refused and changes nothing. So the words after any
assignments are those from before with the valid ones carried out in order, and words of twice the
size are made of pairs of them.
-/

namespace HalfPrecision

namespace Memory

/-- Memory that differs by the bytes of one word, the lowest of them first. -/
structure Stores (m : Memory) (address size value : Nat) (m' : Memory) : Prop where
  size_eq : m'.bytes.size = m.bytes.size
  byte : ∀ j < size, (m'.read (address + j)).toNat = value / 256 ^ j % 256
  outside : ∀ other, other < address ∨ address + size ≤ other → m'.read other = m.read other

/-- The bytes of a word that lies in memory. -/
theorem read_writeWord {m : Memory} {size address value j : Nat} (hj : j < size)
    (h : address + size ≤ m.bytes.size) :
    ((m.writeWord size address value).read (address + j)).toNat = value / 256 ^ j % 256 := by
  induction size generalizing m address value j with
  | zero => exact absurd hj (Nat.not_lt_zero j)
  | succ size ih =>
      rw [writeWord]
      cases j with
      | zero =>
          rw [Nat.add_zero address, read_writeWord_of_outside _ _ (.inl (Nat.lt_add_one address)),
            read_write_self _ _ (by omega), Nat.pow_zero, Nat.div_one]
          exact UInt8.toNat_ofNat_of_lt (Nat.mod_lt _ (by decide))
      | succ j =>
          rw [Nat.add_comm j 1, ← Nat.add_assoc, ih (by omega) (by rw [size_write]; omega),
            Nat.div_div_eq_div_mul, ← Nat.pow_succ', Nat.add_comm 1]

theorem stores_writeWord {m : Memory} {size address : Nat} (value : Nat)
    (h : address + size ≤ m.bytes.size) :
    m.Stores address size value (m.writeWord size address value) where
  size_eq := size_writeWord m size address value
  byte _ hj := read_writeWord hj h
  outside _ hother := read_writeWord_of_outside m value hother

end Memory

namespace Words

variable (w : Words) {m : Memory} {index value : Int}

/-- The place of an index, which counts from the end if it is negative. -/
def position (index : Int) : Nat := (if index < 0 then index + w.count else index).toNat

/-- Whether an assignment is valid: there is a word of that index, and the value fits. -/
def Takes (index value : Int) : Prop :=
  (-(w.count : Int) ≤ index ∧ index < w.count) ∧ 0 ≤ value ∧ value < (256 ^ w.wordSize : Nat)

instance (index value : Int) : Decidable (w.Takes index value) :=
  inferInstanceAs (Decidable (_ ∧ _))

/-- Memory after an assignment was tried. -/
def attempt (m : Memory) (assignment : Int × Int) : Memory :=
  match w.set m assignment.1 assignment.2 with
  | .ok m' => m'
  | .error _ => m

/-- A list of words after an assignment was tried. -/
def update (words : List Nat) (assignment : Int × Int) : List Nat :=
  if w.Takes assignment.1 assignment.2 then
    words.set (w.position assignment.1) assignment.2.toNat
  else words

variable {w}

theorem position_lt (h : w.Takes index value) : w.position index < w.count := by
  obtain ⟨⟨hlow, hhigh⟩, -⟩ := h
  rw [position]
  split <;> omega

theorem place?_eq_some_iff {i : Nat} :
    w.place? index = some i ↔
      (-(w.count : Int) ≤ index ∧ index < w.count) ∧ i = w.position index := by
  unfold place? position
  simp only
  split <;> split <;> simp <;> omega

theorem set_of_takes (hwritable : w.writable = true) (h : w.Takes index value) (m : Memory) :
    w.set m index value =
      .ok (m.writeWord w.wordSize (w.address (w.position index)) value.toNat) := by
  obtain ⟨hindex, hvalue⟩ := h
  have hplace := place?_eq_some_iff.2 ⟨hindex, rfl⟩
  simp only [set, hwritable, hplace, if_pos hvalue]
  rfl

theorem exists_set_eq_error (hwritable : w.writable = true) (h : ¬ w.Takes index value)
    (m : Memory) :
    ∃ e ∈ [AssignError.noSuchIndex, .unsignedIndex, .doesNotFit],
      w.set m index value = .error e := by
  simp only [set, hwritable]
  cases hplace : w.place? index with
  | none =>
      by_cases hindex : isUnsignedIndex index
      · exact ⟨.unsignedIndex, by decide, by simp [hindex]⟩
      · exact ⟨.noSuchIndex, by decide, by simp [hindex]⟩
  | some i =>
      have hvalue : ¬ (0 ≤ value ∧ value < (256 ^ w.wordSize : Nat)) :=
        fun hvalue => h ⟨(place?_eq_some_iff.1 hplace).1, hvalue⟩
      exact ⟨.doesNotFit, by decide, if_neg hvalue⟩

section Assignments

variable (hwritable : w.writable = true)

include hwritable

theorem attempt_of_takes (h : w.Takes index value) (m : Memory) :
    w.attempt m (index, value) =
      m.writeWord w.wordSize (w.address (w.position index)) value.toNat := by
  rw [attempt, set_of_takes hwritable h]

theorem attempt_of_not_takes (h : ¬ w.Takes index value) (m : Memory) :
    w.attempt m (index, value) = m := by
  obtain ⟨e, -, he⟩ := exists_set_eq_error hwritable h m
  rw [attempt, he]

theorem size_attempt (m : Memory) (assignment : Int × Int) :
    (w.attempt m assignment).bytes.size = m.bytes.size := by
  obtain ⟨index, value⟩ := assignment
  by_cases h : w.Takes index value
  · rw [attempt_of_takes hwritable h, Memory.size_writeWord]
  · rw [attempt_of_not_takes hwritable h]

/-- Nothing outside of the words is changed. -/
theorem read_attempt_of_outside {address : Nat} (m : Memory) (assignment : Int × Int)
    (haddress : address < w.start ∨ w.start + w.count * w.wordSize ≤ address) :
    (w.attempt m assignment).read address = m.read address := by
  obtain ⟨index, value⟩ := assignment
  by_cases h : w.Takes index value
  · rw [attempt_of_takes hwritable h, Memory.read_writeWord_of_outside]
    have hend := end_le (position_lt h)
    rw [Words.address] at hend ⊢
    omega
  · rw [attempt_of_not_takes hwritable h]

/-- The words after an assignment are those from before, updated if it was valid. -/
theorem toList_attempt (hlies : ∀ i < w.count, w.address i + w.wordSize ≤ m.bytes.size)
    (assignment : Int × Int) :
    w.toList (w.attempt m assignment) = w.update (w.toList m) assignment := by
  obtain ⟨index, value⟩ := assignment
  by_cases h : w.Takes index value
  · have hvalue : value.toNat < 256 ^ w.wordSize := by
      have := h.2
      omega
    rw [attempt_of_takes hwritable h, update, if_pos h]
    apply List.ext_getElem
    · simp [toList]
    intro i hi hi'
    rw [List.getElem_set]
    simp only [toList, List.getElem_map, List.getElem_range]
    split
    next heq =>
      subst heq
      rw [get, Memory.readWord_writeWord_self _ _ (hlies _ (position_lt h)), Nat.mod_eq_of_lt hvalue]
    next hne =>
      rw [get, get, Memory.readWord_writeWord_of_disjoint]
      rcases Nat.lt_or_gt_of_ne hne with hlt | hgt
      · exact .inr (address_add_le hlt)
      · exact .inl (address_add_le hgt)
  · rw [attempt_of_not_takes hwritable h, update, if_neg h]

theorem size_attempts (assignments : List (Int × Int)) (m : Memory) :
    (assignments.foldl w.attempt m).bytes.size = m.bytes.size := by
  induction assignments generalizing m with
  | nil => rfl
  | cons assignment rest ih => rw [List.foldl_cons, ih, size_attempt hwritable]

theorem read_attempts_of_outside {address : Nat} (assignments : List (Int × Int)) (m : Memory)
    (haddress : address < w.start ∨ w.start + w.count * w.wordSize ≤ address) :
    (assignments.foldl w.attempt m).read address = m.read address := by
  induction assignments generalizing m with
  | nil => rfl
  | cons assignment rest ih =>
      rw [List.foldl_cons, ih, read_attempt_of_outside hwritable m assignment haddress]

/-- The words after any assignments are updated by the valid ones in order. -/
theorem toList_attempts (hlies : ∀ i < w.count, w.address i + w.wordSize ≤ m.bytes.size)
    (assignments : List (Int × Int)) :
    w.toList (assignments.foldl w.attempt m) = assignments.foldl w.update (w.toList m) := by
  induction assignments generalizing m with
  | nil => rfl
  | cons assignment rest ih =>
      have hrest : ∀ i < w.count,
          w.address i + w.wordSize ≤ (w.attempt m assignment).bytes.size := by
        rw [size_attempt hwritable]
        exact hlies
      rw [List.foldl_cons, List.foldl_cons, ih hrest, toList_attempt hwritable hlies]

/-- Assignments in a row are carried out up to the first one that is not valid. -/
theorem setAll_append (before : List (Int × Int)) (hbefore : ∀ a ∈ before, w.Takes a.1 a.2)
    (rest : List (Int × Int)) (m : Memory) :
    w.setAll m (before ++ rest) = w.setAll (before.foldl w.attempt m) rest := by
  induction before generalizing m with
  | nil => rfl
  | cons assignment before ih =>
      obtain ⟨hfirst, hrest⟩ := List.forall_mem_cons.1 hbefore
      obtain ⟨index, value⟩ := assignment
      rw [List.cons_append, setAll, set_of_takes hwritable hfirst, List.foldl_cons,
        attempt_of_takes hwritable hfirst]
      exact ih hrest _

end Assignments

/-- A word of twice the size is made of two words. -/
theorem readWord_two_mul (w : Words) (m : Memory) (i : Nat) :
    m.readWord (2 * w.wordSize) (w.start + i * (2 * w.wordSize)) =
      w.get m (2 * i) + 256 ^ w.wordSize * w.get m (2 * i + 1) := by
  have hfirst : w.start + i * (2 * w.wordSize) = w.address (2 * i) := by
    rw [address]
    ring
  have hsecond : w.address (2 * i) + w.wordSize = w.address (2 * i + 1) := by
    rw [address, address]
    ring
  rw [Nat.two_mul, ← Nat.two_mul, hfirst, Nat.two_mul, Memory.readWord_add, hsecond, get, get]

end Words

/-- Words as a view of a buffer that lies in memory, whatever assignments were tried before. -/
structure Words.IsViewOf (w : Words) (b : Buffer) (m : Memory) : Prop where
  takes : ∀ (before : List (Int × Int)) (index value : Int), w.Takes index value →
    ∃ m', w.set (before.foldl w.attempt m) index value = .ok m' ∧
      (before.foldl w.attempt m).Stores (b.start + w.position index * w.wordSize) w.wordSize
        value.toNat m'
  refuses : ∀ (before : List (Int × Int)) (index value : Int), ¬ w.Takes index value →
    ∃ e ∈ [AssignError.noSuchIndex, .unsignedIndex, .doesNotFit],
      w.set (before.foldl w.attempt m) index value = .error e
  stops : ∀ before : List (Int × Int), (∀ a ∈ before, w.Takes a.1 a.2) →
    w.setAll m before = (.ok (), before.foldl w.attempt m) ∧
      ∀ (index value : Int) (rest : List (Int × Int)), ¬ w.Takes index value →
        ∃ e, w.setAll m (before ++ (index, value) :: rest) = (.error e, before.foldl w.attempt m)
  words : ∀ assignments : List (Int × Int),
    w.toList (assignments.foldl w.attempt m) = assignments.foldl w.update (w.toList m)
  outside : ∀ (assignments : List (Int × Int)) (address : Nat),
    address < b.start ∨ b.start + w.count * w.wordSize ≤ address →
      (assignments.foldl w.attempt m).read address = m.read address
  pairs : ∀ (pairs : Nat) (write : Bool) (name : String), 2 * pairs ≤ w.count →
    ∃ wide, (Operand.buffer b).words (2 * w.wordSize) pairs write name = .ok (some wide) ∧
      ∀ m' : Memory, wide.toList m' =
        (List.range pairs).map fun i => w.get m' (2 * i) + 256 ^ w.wordSize * w.get m' (2 * i + 1)

namespace Operand

variable {operand : Operand} {b : Buffer} {wordSize : Nat} {count : Int} {write : Bool}

/-- An operand that is there has words unless it is unfit or has an empty one of several axes. -/
theorem exists_words_eq_error_iff (name : String) (hpresent : operand ≠ absent) :
    (∃ e, operand.words wordSize count write name = .error e) ↔
      operand.Unfit wordSize count write ∨ ¬ operand.IsPlain := by
  constructor
  · rintro ⟨e, he⟩
    by_contra hfit
    rw [not_or, not_not] at hfit
    obtain ⟨w, hw, -⟩ := exists_words_eq_ok name hfit.2 hfit.1
    rw [he] at hw
    cases hw
  · rintro (hunfit | hplain)
    · exact exists_words_eq_error name hpresent hunfit
    · unfold words
      rw [if_neg hpresent]
      split
      · exact ⟨_, rfl⟩
      cases hbuffer : operand.contiguous? with
      | error fault => exact ⟨_, rfl⟩
      | ok b =>
          obtain ⟨rfl, hrow⟩ := contiguous?_eq_ok hbuffer
          exact absurd (isPlain_of_hasEmptyAxis_eq_false hrow.2) hplain

end Operand

namespace Words

/-- The words of a writable buffer are a view of it. -/
theorem isViewOf {w : Words} {b : Buffer} {m : Memory} (hwritable : w.writable = true)
    (hstart : w.start = b.start) (hrow : b.IsRow) (hpos : 0 < w.wordSize)
    (hsize : w.count * w.wordSize ≤ b.byteSize) (hwrite : b.writable = true) (hlies : b.LiesIn m) :
    w.IsViewOf b m := by
  have hwords : ∀ i < w.count, w.address i + w.wordSize ≤ m.bytes.size := by
    intro i hi
    have hend := end_le hi
    have hbytes := Nat.mul_pos (Nat.zero_lt_of_lt hi) hpos
    have hlast := hlies.end_le hrow (hbytes.trans_le hsize)
    omega
  refine ⟨?_, ?_, ?_, ?_, ?_, ?_⟩
  · intro before index value h
    refine ⟨_, set_of_takes hwritable h _, ?_⟩
    rw [← hstart]
    apply Memory.stores_writeWord
    rw [size_attempts hwritable]
    exact hwords _ (position_lt h)
  · intro before index value h
    exact exists_set_eq_error hwritable h _
  · intro before hbefore
    refine ⟨?_, fun index value rest h => ?_⟩
    · have hall := setAll_append hwritable before hbefore [] m
      rwa [List.append_nil] at hall
    · obtain ⟨e, -, he⟩ := exists_set_eq_error hwritable h (before.foldl w.attempt m)
      refine ⟨e, ?_⟩
      rw [setAll_append hwritable before hbefore, setAll, he]
  · exact toList_attempts hwritable hwords
  · intro assignments address haddress
    rw [← hstart] at haddress
    exact read_attempts_of_outside hwritable assignments m haddress
  · intro pairs write name hpairs
    have hfits : pairs * (2 * w.wordSize) ≤ b.byteSize := by
      have := Nat.mul_le_mul_right w.wordSize hpairs
      rw [Nat.mul_left_comm, ← Nat.mul_assoc]
      omega
    refine ⟨_, Operand.words_eq_ok name hrow (fun _ => hwrite) hfits, fun m' => ?_⟩
    apply List.map_congr_left
    intro i _
    rw [get, address, ← hstart]
    exact w.readWord_two_mul m' i

end Words

namespace Operand

/-- An operand that is there is refused exactly if it is unfit, or one of its several axes is empty.
The words of a writable buffer are a view of it. -/
theorem words_viewed {operand : Operand} (hpresent : operand ≠ absent) {wordSize : Nat}
    (hpos : 0 < wordSize) (count : Int) (write : Bool) (name : String) :
    ((∃ e, operand.words wordSize count write name = .error e) ↔
      operand.Unfit wordSize count write ∨ ¬ operand.IsPlain) ∧
    ∀ b, operand = buffer b → b.writable = true → operand.IsPlain →
      ¬ operand.Unfit wordSize count write →
      ∃ w, operand.words wordSize count write name = .ok (some w) ∧ w.wordSize = wordSize ∧
        w.count = count.toNat ∧ ∀ m, b.LiesIn m → w.IsViewOf b m := by
  refine ⟨exists_words_eq_error_iff name hpresent, ?_⟩
  rintro b rfl hwritable hplain hfit
  simp only [Unfit, not_or, not_and, not_not, not_lt] at hfit
  obtain ⟨hcount, hcontiguous, -, hsize⟩ := hfit
  obtain ⟨count, rfl⟩ := Int.eq_ofNat_of_zero_le hcount
  have hrow := hplain.isRow hcontiguous
  have hfits : count * wordSize ≤ b.byteSize := by
    rw [byteSize] at hsize
    exact_mod_cast hsize
  refine ⟨_, words_eq_ok name hrow (fun _ => hwritable) hfits, rfl, rfl, fun m hlies => ?_⟩
  exact Words.isViewOf (by simp [hwritable]) rfl hrow hpos hfits hwritable hlies

/-- Four assignments to two words from the second byte of memory on, the middle ones of which are
refused. -/
theorem words_viewed_two :
    ∃ w, (buffer ⟨1, 1, [⟨5, 1⟩], true⟩).words 2 2 true "target" = .ok (some w) ∧
      w.toList ([(-1, 0x1234), (2, 7), (0, 0x10000), (0, 0xABCD)].foldl w.attempt
        ⟨#[1, 2, 3, 4, 5, 6, 7]⟩) = [0xABCD, 0x1234] ∧
      (w.set ⟨#[1, 2, 3, 4, 5, 6, 7]⟩ 2 7).toOption = none := by
  obtain ⟨-, hview⟩ := words_viewed (by decide : buffer ⟨1, 1, [⟨5, 1⟩], true⟩ ≠ absent)
    Nat.two_pos 2 true "target"
  obtain ⟨w, hwords, hsize, hcount, hw⟩ :=
    hview _ rfl rfl (isPlain_of_single_axis rfl) (by decide)
  obtain rfl : (⟨1, 2, 2, true⟩ : Words) = w := by
    have hsame : (buffer ⟨1, 1, [⟨5, 1⟩], true⟩).words 2 2 true "target" =
        .ok (some ⟨1, 2, 2, true⟩) := rfl
    exact Option.some.inj (Except.ok.inj (hsame.symm.trans hwords))
  have hview := hw ⟨#[1, 2, 3, 4, 5, 6, 7]⟩ (by decide)
  obtain ⟨e, -, he⟩ := hview.refuses [] 2 7 (by decide)
  refine ⟨_, hwords, ?_, ?_⟩
  · rw [hview.words]
    decide
  · rw [List.foldl_nil] at he
    rw [he]
    rfl

/-- No words are taken from a grid without rows, although none are asked for. -/
theorem words_refused_of_empty_axis :
    ¬ (buffer ⟨0, 2, [⟨0, 4⟩, ⟨2, 2⟩], true⟩).Unfit 2 0 true ∧
      (buffer ⟨0, 2, [⟨0, 4⟩, ⟨2, 2⟩], true⟩).words 2 0 true "target" =
        .error (.notContiguous "target" .emptyAxis) := by
  decide

end Operand

end HalfPrecision
