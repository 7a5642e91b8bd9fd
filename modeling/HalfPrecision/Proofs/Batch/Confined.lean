import HalfPrecision.Proofs.Batch.Guarded
import Mathlib.Order.CompletePartialOrder
import Mathlib.Order.Interval.Set.Disjoint

/-!
# Actions confined to parts of memory

An action is confined if it depends on the bytes that it may read and changes only those that it may
write. Actions that write nothing the other one reads or writes can be done in either order.
-/

namespace HalfPrecision

namespace Memory

variable {m m' : Memory}

/-- Whether two memories of one size hold the same bytes at some addresses. -/
def AgreeOn (addresses : Set Nat) (m m' : Memory) : Prop :=
  m.bytes.size = m'.bytes.size ∧ ∀ address ∈ addresses, m.read address = m'.read address

theorem write_of_le {address : Nat} (byte : UInt8) (h : m.bytes.size ≤ address) :
    m.write address byte = m := by
  simp [write, Array.setIfInBounds, h.not_gt]

/-- A write gives the same byte where there was the same one. -/
theorem read_write_congr (hsize : m.bytes.size = m'.bytes.size) {other : Nat}
    (hread : m.read other = m'.read other) (address : Nat) (byte : UInt8) :
    (m.write address byte).read other = (m'.write address byte).read other := by
  rcases eq_or_ne other address with rfl | hne
  · by_cases hin : other < m.bytes.size
    · rw [read_write_self m byte hin, read_write_self m' byte (hsize ▸ hin)]
    · have hout := not_lt.1 hin
      rw [write_of_le byte hout, write_of_le byte (hsize ▸ hout), hread]
  · rw [read_write_of_ne m byte hne, read_write_of_ne m' byte hne, hread]

theorem read_writeWord_congr (hsize : m.bytes.size = m'.bytes.size) {other : Nat}
    (hread : m.read other = m'.read other) (size address value : Nat) :
    (m.writeWord size address value).read other =
      (m'.writeWord size address value).read other := by
  induction size generalizing m m' address value with
  | zero => exact hread
  | succ size ih =>
      apply ih
      · rw [size_write, size_write, hsize]
      · exact read_write_congr hsize hread address _

end Memory

namespace Guarded

variable {α β : Type} {reads writes reads' writes' : Set Nat}

/-- Whether an action depends on `reads` alone, and changes no more than `writes`. -/
structure Confined (action : Guarded α) (reads writes : Set Nat) : Prop where
  size : ∀ m, (action.run m).2.bytes.size = m.bytes.size
  frame : ∀ m, ∀ address ∉ writes, (action.run m).2.read address = m.read address
  answer_congr : ∀ {m m'}, m.AgreeOn reads m' → (action.run m).1 = (action.run m').1
  /-- What a byte becomes depends on what it was and on the bytes that are read. -/
  read_congr : ∀ {m m'}, m.AgreeOn reads m' → ∀ address, m.read address = m'.read address →
    (action.run m).2.read address = (action.run m').2.read address

/-- An action that leaves memory alone and does not look at it. -/
theorem confined_of_run_eq {action : Guarded α} {answer : Except CallError α}
    (h : ∀ m, action.run m = (answer, m)) : action.Confined reads writes := by
  constructor <;> simp_all

theorem confined_pure (a : α) : (pure a : Guarded α).Confined reads writes :=
  confined_of_run_eq (run_pure a)

theorem confined_throw (e : CallError) : (throw e : Guarded α).Confined reads writes :=
  confined_of_run_eq (run_throw e)

theorem Confined.agreeOn {action : Guarded α} (h : action.Confined reads writes) {m m' : Memory}
    (hagree : m.AgreeOn reads m') : (action.run m).2.AgreeOn reads (action.run m').2 := by
  refine ⟨?_, ?_⟩
  · rw [h.size, h.size, hagree.1]
  · intro address hread
    exact h.read_congr hagree address (hagree.2 address hread)

theorem Confined.bind {action : Guarded α} {next : α → Guarded β}
    (haction : action.Confined reads writes) (hnext : ∀ a, (next a).Confined reads writes) :
    (action >>= next).Confined reads writes where
  size m := by
    rw [run_bind, ← haction.size m]
    cases (action.run m).1 with
    | ok a => exact (hnext a).size _
    | error e => rfl
  frame m address hout := by
    rw [run_bind, ← haction.frame m address hout]
    cases (action.run m).1 with
    | ok a => exact (hnext a).frame _ address hout
    | error e => rfl
  answer_congr {m m'} hagree := by
    rw [run_bind, run_bind, ← haction.answer_congr hagree]
    cases (action.run m).1 with
    | ok a => exact (hnext a).answer_congr (haction.agreeOn hagree)
    | error e => rfl
  read_congr {m m'} hagree address hsame := by
    have hmiddle := haction.read_congr hagree address hsame
    rw [run_bind, run_bind, ← haction.answer_congr hagree]
    cases (action.run m).1 with
    | ok a => exact (hnext a).read_congr (haction.agreeOn hagree) address hmiddle
    | error e => exact hmiddle

theorem confined_forM {ι : Type} {action : ι → Guarded Unit}
    (h : ∀ i, (action i).Confined reads writes) (l : List ι) :
    (l.forM action).Confined reads writes := by
  induction l with
  | nil => exact confined_pure _
  | cons i rest ih => exact (h i).bind fun _ => ih

variable {first : Guarded α} {second : Guarded β}

/-- An action keeps the bytes that it does not write. -/
theorem Confined.agreeOn_run (h : second.Confined reads' writes')
    (hdisjoint : Disjoint reads writes') (m : Memory) : (second.run m).2.AgreeOn reads m := by
  refine ⟨h.size m, ?_⟩
  intro address hread
  exact h.frame m address (Set.disjoint_left.1 hdisjoint hread)

/-- Actions that write nothing the other one reads or writes change memory in either order. -/
theorem Confined.memory_comm (hfirst : first.Confined reads writes)
    (hsecond : second.Confined reads' writes') (hreads : Disjoint reads writes')
    (hreads' : Disjoint reads' writes) (hwrites : Disjoint writes writes') (m : Memory) :
    (second.run (first.run m).2).2 = (first.run (second.run m).2).2 := by
  apply Memory.ext_read
  · rw [hsecond.size, hfirst.size, hfirst.size, hsecond.size]
  intro address
  by_cases hwrite : address ∈ writes
  · have hsame := hsecond.frame m address (Set.disjoint_left.1 hwrites hwrite)
    rw [hsecond.frame _ address (Set.disjoint_left.1 hwrites hwrite)]
    exact (hfirst.read_congr (hsecond.agreeOn_run hreads m) address hsame).symm
  · have hsame := hfirst.frame m address hwrite
    rw [hfirst.frame _ address hwrite]
    exact hsecond.read_congr (hfirst.agreeOn_run hreads' m) address hsame

end Guarded

namespace Words

variable {w : Words} {reads writes : Set Nat}

theorem lt_of_place?_eq {index : Int} {i : Nat} (h : w.place? index = some i) : i < w.count := by
  simp only [place?, Option.ite_none_right_eq_some, Option.some.injEq] at h
  split at h <;> omega

theorem confined_fetch (w : Words) (index : Int) : (w.fetch index).Confined w.bytes writes := by
  unfold fetch
  cases hplace : w.place? index with
  | none => exact Guarded.confined_throw _
  | some i =>
      have hi := lt_of_place?_eq hplace
      have hend := end_le hi
      refine ⟨fun _ => rfl, fun _ _ _ => rfl, ?_, fun _ _ h => h⟩
      intro m m' hagree
      have hword : w.get m i = w.get m' i := by
        apply Memory.readWord_congr
        intro byte hbyte
        exact hagree.2 _ ⟨by rw [address]; omega, by omega⟩
      exact congrArg Except.ok hword

/-- Whether an assignment fails does not depend on memory. -/
theorem set_eq_error_or_ok (w : Words) (index value : Int) :
    (∃ e, ∀ m, w.set m index value = .error e) ∨
      ∃ i < w.count, ∀ m,
        w.set m index value = .ok (m.writeWord w.wordSize (w.address i) value.toNat) := by
  unfold set
  cases w.writable with
  | false => exact .inl ⟨_, fun _ => rfl⟩
  | true =>
      cases hplace : w.place? index with
      | none => exact .inl ⟨_, fun _ => rfl⟩
      | some i =>
          by_cases hfits : 0 ≤ value ∧ value < (256 ^ w.wordSize : Nat)
          · exact .inr ⟨i, lt_of_place?_eq hplace, fun _ => if_pos hfits⟩
          · exact .inl ⟨_, fun _ => if_neg hfits⟩

theorem confined_assign (w : Words) (index value : Int) :
    (w.assign index value).Confined reads w.bytes := by
  rcases w.set_eq_error_or_ok index value with ⟨e, herror⟩ | ⟨i, hi, hset⟩
  · apply Guarded.confined_of_run_eq
    intro m
    rw [run_assign_eq, herror]
  · have hend := end_le hi
    have hrun : ∀ m, (w.assign index value).run m =
        (.ok (), m.writeWord w.wordSize (w.address i) value.toNat) := by
      intro m
      rw [run_assign_eq, hset]
    refine ⟨?_, ?_, ?_, ?_⟩
    · intro m
      rw [hrun, Memory.size_writeWord]
    · intro m address hout
      rw [hrun]
      apply Memory.read_writeWord_of_outside
      rw [bytes, Set.mem_Ico, not_and_or, not_le, not_lt] at hout
      rw [Words.address] at hend ⊢
      omega
    · intro m m' _
      rw [hrun, hrun]
    · intro m m' hagree address hsame
      rw [hrun, hrun]
      exact Memory.read_writeWord_congr hagree.1 hsame _ _ _

end Words

namespace Element

variable {writes reads : Set Nat}

theorem confined_fetch (e : Element) (p : Platform) (w : Words) (i : Nat) :
    (e.fetch p w i).Confined w.bytes writes := by
  cases e with
  | half | single => exact w.confined_fetch i
  | double =>
      exact (w.confined_fetch _).bind fun _ => (w.confined_fetch _).bind fun _ =>
        Guarded.confined_pure _

theorem confined_assign (e : Element) (p : Platform) (w : Words) (i pattern : Nat) :
    (e.assign p w i pattern).Confined reads w.bytes := by
  cases e with
  | half | single => exact w.confined_assign i pattern
  | double => exact (w.confined_assign _ _).bind fun _ => w.confined_assign _ _

end Element

namespace Routine

theorem bytes_of_elements_eq_ok {operand : Operand} {e : Element} {count : Int} {write : Bool}
    {name : String} {w : Words} (h : elements operand e count write name = .ok (some w)) :
    w.bytes = operand.window (count.toNat * e.size) := by
  rw [Operand.bytes_of_words_eq_ok h]
  congr 1
  cases e <;> simp only [Element.wordCount, Element.wordSize, Element.size] <;> omega

/-- The rows that a call is prepared with lie in its windows. -/
theorem bytes_of_prepare_eq_rows {r : Routine} {p : Platform} {target source : Operand}
    {count : Int} {out src : Words} (h : r.prepare p target source count = .ok (.rows out src)) :
    out.bytes = target.window (count.toNat * r.target.size) ∧
      src.bytes = source.window (count.toNat * r.source.size) := by
  unfold prepare at h
  split at h
  · cases h
  split at h
  · cases h
  cases hout : elements target r.target count true "target" with
  | error e =>
      rw [hout] at h
      cases h
  | ok out? =>
      cases hsrc : elements source r.source count false "source" with
      | error e =>
          rw [hout, hsrc] at h
          cases out? <;> cases h
      | ok src? =>
          rw [hout, hsrc] at h
          cases out? with
          | none => cases h
          | some out' =>
              cases src? with
              | none => cases h
              | some src' =>
                  cases h
                  exact ⟨bytes_of_elements_eq_ok hout, bytes_of_elements_eq_ok hsrc⟩

/-- A call stays within its windows, whatever comes of it. -/
theorem confined_guardedCall (r : Routine) (p : Platform) (target source : Operand) (count : Int) :
    (r.guardedCall p target source count).Confined (source.window (count.toNat * r.source.size))
      (target.window (count.toNat * r.target.size)) := by
  unfold guardedCall
  split
  · exact Guarded.confined_throw _
  · exact Guarded.confined_pure _
  next out src hrows =>
    obtain ⟨hout, hsrc⟩ := bytes_of_prepare_eq_rows hrows
    rw [← hout, ← hsrc]
    refine (Guarded.confined_forM (fun i => ?_) _).bind fun _ => Guarded.confined_pure _
    exact (r.source.confined_fetch p src i).bind fun _ => r.target.confined_assign p out i _

end Routine

end HalfPrecision
