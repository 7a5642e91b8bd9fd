import HalfPrecision.Batch.Guarded
import HalfPrecision.Proofs.Batch.Call
import HalfPrecision.Proofs.Memory.Operand

/-!
# Guarded batches never fail

Once its operands have passed their checks, a batch has no access that fails: the indexes of its
elements lie in both rows, and every converted pattern fits, whatever has been read. A call therefore
either leaves memory alone or converts all its elements.
-/

namespace HalfPrecision

namespace Guarded

variable {α β : Type}

@[simp] theorem run_pure (a : α) (m : Memory) : (pure a : Guarded α).run m = (.ok a, m) := rfl

@[simp] theorem run_throw (e : CallError) (m : Memory) :
    (throw e : Guarded α).run m = (.error e, m) := rfl

theorem run_bind (action : Guarded α) (next : α → Guarded β) (m : Memory) :
    (action >>= next).run m = match (action.run m).1 with
      | .ok a => (next a).run (action.run m).2
      | .error e => (.error e, (action.run m).2) := by
  unfold run
  rw [ExceptT.run_bind, StateT.run_bind]
  cases haction : StateT.run (ExceptT.run action) m with
  | mk answer m' => cases answer <;> rfl

theorem run_bind_of_ok {action : Guarded α} {next : α → Guarded β} {m m' : Memory} {a : α}
    (h : action.run m = (.ok a, m')) : (action >>= next).run m = (next a).run m' := by
  rw [run_bind, h]

theorem run_bind_eq_ok {action : Guarded α} {next : α → Guarded β} {m m' : Memory} {b : β}
    (h : (action >>= next).run m = (.ok b, m')) :
    ∃ a m₁, action.run m = (.ok a, m₁) ∧ (next a).run m₁ = (.ok b, m') := by
  rw [run_bind] at h
  cases hanswer : (action.run m).1 with
  | ok a =>
      rw [hanswer] at h
      exact ⟨a, _, Prod.ext hanswer rfl, h⟩
  | error e =>
      rw [hanswer] at h
      cases h

/-- Actions that all succeed change memory one after the other. -/
theorem run_forM {ι : Type} {l : List ι} {action : ι → Guarded Unit} {effect : Memory → ι → Memory}
    (h : ∀ i ∈ l, ∀ m, (action i).run m = (.ok (), effect m i)) (m : Memory) :
    (l.forM action).run m = (.ok (), l.foldl effect m) := by
  induction l generalizing m with
  | nil => rfl
  | cons i rest ih =>
      have hfirst := h i List.mem_cons_self m
      have hrest := ih (fun j hj => h j (List.mem_cons_of_mem i hj)) (effect m i)
      exact (run_bind_of_ok hfirst).trans hrest

end Guarded

namespace Words

variable {w : Words} {i : Nat}

theorem place?_of_lt (h : i < w.count) : w.place? i = some i := by
  have hindex : ¬ ((i : Int) < 0) := by omega
  have hplace : 0 ≤ (i : Int) ∧ (i : Int) < w.count := by omega
  simp only [place?, hindex, if_false, hplace, and_self, if_true, Int.toNat_natCast]

theorem run_fetch (h : i < w.count) (m : Memory) : (w.fetch i).run m = (.ok (w.get m i), m) := by
  unfold fetch
  rw [place?_of_lt h]
  rfl

theorem set_of_lt {value : Nat} (hwritable : w.writable = true) (h : i < w.count)
    (hfits : value < 256 ^ w.wordSize) (m : Memory) :
    w.set m i value = .ok (m.writeWord w.wordSize (w.address i) value) := by
  have hvalue : 0 ≤ (value : Int) ∧ (value : Int) < (256 ^ w.wordSize : Nat) := by omega
  simp only [set, hwritable, place?_of_lt h, if_pos hvalue]
  rfl

theorem run_assign_eq (w : Words) (index value : Int) (m : Memory) :
    (w.assign index value).run m = match w.set m index value with
      | .ok m' => (.ok (), m')
      | .error e => (.error (.unassignable e), m) := by
  have hread : (getThe Memory : Guarded Memory).run m = (.ok m, m) := rfl
  rw [assign, Guarded.run_bind_of_ok hread]
  cases w.set m index value <;> rfl

theorem run_assign {value : Nat} (hwritable : w.writable = true) (h : i < w.count)
    (hfits : value < 256 ^ w.wordSize) (m : Memory) :
    (w.assign i value).run m = (.ok (), m.writeWord w.wordSize (w.address i) value) := by
  rw [run_assign_eq, set_of_lt hwritable h hfits]

/-- Whether a row is made of the words of `count` elements. -/
structure HoldsElements (w : Words) (e : Element) (count : Nat) : Prop where
  wordSize : w.wordSize = e.wordSize
  count : w.count = e.wordCount * count

end Words

namespace Element

variable {e : Element} {w : Words} {count i : Nat}

theorem run_fetch (p : Platform) (hw : w.HoldsElements e count) (hi : i < count) (m : Memory) :
    (e.fetch p w i).run m = (.ok (e.load p m (w.start + i * e.size)), m) := by
  obtain ⟨hsize, hcount⟩ := hw
  cases e with
  | half | single =>
      simp only [wordSize, wordCount] at hsize hcount
      rw [fetch, Words.run_fetch (by omega), Words.get, Words.address, hsize]
      rfl
  | double =>
      simp only [wordSize, wordCount] at hsize hcount
      have hwords := p.highWord_add_lowWord
      have hword : ∀ word ≤ 1, ∀ m : Memory, (w.fetch (2 * i + word : Nat)).run m =
          (.ok (m.readWord 4 (w.start + i * 8 + 4 * word)), m) := by
        intro word hword m
        have haddress : w.start + (2 * i + word) * 4 = w.start + i * 8 + 4 * word := by ring
        rw [Words.run_fetch (by omega), Words.get, Words.address, hsize, haddress]
      rw [fetch, Guarded.run_bind_of_ok (hword _ (by omega) m),
        Guarded.run_bind_of_ok (hword _ (by omega) m), Guarded.run_pure]
      rfl

theorem run_assign (p : Platform) (hw : w.HoldsElements e count) (hwritable : w.writable = true)
    (hi : i < count) {pattern : Nat} (hfits : pattern < 256 ^ e.size) (m : Memory) :
    (e.assign p w i pattern).run m = (.ok (), e.store p m (w.start + i * e.size) pattern) := by
  obtain ⟨hsize, hcount⟩ := hw
  cases e with
  | half | single =>
      simp only [wordSize, wordCount] at hsize hcount
      rw [assign, Words.run_assign hwritable (by omega) (by rwa [hsize]), Words.address, hsize]
      rfl
  | double =>
      simp only [wordSize, wordCount] at hsize hcount
      have hwords := p.highWord_add_lowWord
      have hword : ∀ word ≤ 1, ∀ value < wordBase, ∀ m : Memory,
          (w.assign (2 * i + word : Nat) value).run m =
            (.ok (), m.writeWord 4 (w.start + i * 8 + 4 * word) value) := by
        intro word hword value hvalue m
        have haddress : w.start + (2 * i + word) * 4 = w.start + i * 8 + 4 * word := by ring
        rw [Words.run_assign hwritable (by omega) (by rwa [hsize]), Words.address, hsize, haddress]
      have hhigh : pattern / wordBase < wordBase := by
        rw [Nat.div_lt_iff_lt_mul (by decide)]
        exact hfits
      have hlow : pattern % wordBase < wordBase := Nat.mod_lt _ (by decide)
      rw [assign, Guarded.run_bind_of_ok (hword _ (by omega) _ hhigh m),
        hword _ (by omega) _ hlow]
      rfl

end Element

namespace Routine

variable {r : Routine} {p : Platform} {out src : Words} {count : Nat}

theorem run_convertElement (hout : out.HoldsElements r.target count)
    (hwritable : out.writable = true) (hsrc : src.HoldsElements r.source count) {i : Nat}
    (hi : i < count) (m : Memory) :
    (r.convertElement p out src i).run m =
      (.ok (), r.convertAt p out.start src.start m i) := by
  rw [convertElement, Guarded.run_bind_of_ok (Element.run_fetch p hsrc hi m),
    Element.run_assign p hout hwritable hi (r.convert_lt _)]
  rfl

/-- The elements of two rows are all converted, whatever memory holds. -/
theorem run_forM_convertElement (hout : out.HoldsElements r.target count)
    (hwritable : out.writable = true) (hsrc : src.HoldsElements r.source count) (m : Memory) :
    ((List.range count).forM (r.convertElement p out src)).run m =
      (.ok (), r.convertAll p out.start src.start count m) := by
  apply Guarded.run_forM
  intro i hi m
  exact run_convertElement hout hwritable hsrc (List.mem_range.1 hi) m

/-- A call is its checks and, if they come to two rows, the conversion between them. -/
theorem call_eq_prepare (r : Routine) (p : Platform) (target source : Operand) (count : Int)
    (m : Memory) :
    r.call p target source count m =
      (r.prepare p target source count).map fun
        | .answered done => (done, m)
        | .rows out src => (true, r.convertAll p out.start src.start count.toNat m) := by
  unfold call prepare
  split
  · rfl
  split
  · rfl
  · cases elements target r.target count true "target" with
    | error e => rfl
    | ok out =>
        cases out with
        | none => rfl
        | some out =>
            cases elements source r.source count false "source" with
            | error e => rfl
            | ok src => cases src <;> rfl

/-- Whether a call comes to an answer and leaves a memory, with guarded accesses and without. -/
def Ends (r : Routine) (p : Platform) (target source : Operand) (count : Int) (m : Memory)
    (answer : Except BufferError Bool) (m' : Memory) : Prop :=
  (r.guardedCall p target source count).run m = (answer.mapError .refused, m') ∧
    r.call p target source count m = answer.map fun done => (done, m')

variable {target source : Operand} {n : Int}

theorem ends_of_prepare_eq_error {e : BufferError} (h : r.prepare p target source n = .error e)
    (m : Memory) : r.Ends p target source n m (.error e) m := by
  refine ⟨?_, ?_⟩
  · rw [guardedCall, h]
    rfl
  · rw [call_eq_prepare, h]
    rfl

theorem ends_of_prepare_eq_answered {done : Bool}
    (h : r.prepare p target source n = .ok (.answered done)) (m : Memory) :
    r.Ends p target source n m (.ok done) m := by
  refine ⟨?_, ?_⟩
  · rw [guardedCall, h]
    rfl
  · rw [call_eq_prepare, h]
    rfl

theorem ends_of_prepare_eq_rows (h : r.prepare p target source n = .ok (.rows out src))
    (hout : out.HoldsElements r.target n.toNat) (hwritable : out.writable = true)
    (hsrc : src.HoldsElements r.source n.toNat) (m : Memory) :
    r.Ends p target source n m (.ok true) (r.convertAll p out.start src.start n.toNat m) := by
  refine ⟨?_, ?_⟩
  · rw [guardedCall, h]
    exact Guarded.run_bind_of_ok (run_forM_convertElement hout hwritable hsrc m)
  · rw [call_eq_prepare, h]
    rfl

/-- A guarded call on two rows that are long enough converts from one to the other. -/
theorem run_guardedCall (hp : p.ieee754 = true) {target source : Buffer} (htarget : target.IsRow)
    (hwritable : target.writable = true) (htargetSize : count * r.target.size ≤ target.byteSize)
    (hsource : source.IsRow) (hsourceSize : count * r.source.size ≤ source.byteSize)
    (m : Memory) :
    (r.guardedCall p (.buffer target) (.buffer source) count).run m =
      (.ok true, r.convertAll p target.start source.start count m) := by
  have hout := elements_eq_ok r.target true "target" htarget (fun _ => hwritable) htargetSize
  have hsrc := elements_eq_ok r.source false "source" hsource
    (fun hfalse => absurd hfalse Bool.false_ne_true) hsourceSize
  have hprepare : ∃ out src, r.prepare p (.buffer target) (.buffer source) count =
      .ok (.rows out src) ∧ out.start = target.start ∧ src.start = source.start ∧
        out.HoldsElements r.target count ∧ out.writable = true ∧
          src.HoldsElements r.source count := by
    unfold prepare
    simp only [hp, hout, hsrc]
    exact ⟨_, _, rfl, rfl, rfl, ⟨rfl, rfl⟩, by simp [hwritable], ⟨rfl, rfl⟩⟩
  obtain ⟨out, src, hrows, houtStart, hsrcStart, houtElements, houtWritable, hsrcElements⟩ :=
    hprepare
  rw [← houtStart, ← hsrcStart]
  exact (ends_of_prepare_eq_rows hrows houtElements houtWritable hsrcElements m).1

/-- A call on two rows that are long enough comes to its end. -/
theorem ends_of_isRow (hp : p.ieee754 = true) {target source : Buffer} (htarget : target.IsRow)
    (hwritable : target.writable = true) (htargetSize : count * r.target.size ≤ target.byteSize)
    (hsource : source.IsRow) (hsourceSize : count * r.source.size ≤ source.byteSize)
    (m : Memory) :
    r.Ends p (.buffer target) (.buffer source) count m (.ok true)
      (r.convertAll p target.start source.start count m) :=
  ⟨run_guardedCall hp htarget hwritable htargetSize hsource hsourceSize m,
    call_eq_ok hp htarget hwritable htargetSize hsource hsourceSize m⟩

theorem prepare_of_not_ieee754 (hp : p.ieee754 = false) :
    r.prepare p target source n = .ok (.answered false) := by
  simp only [prepare, hp]
  rfl

theorem prepare_of_absent (hp : p.ieee754 = true) (h : target = .absent ∨ source = .absent) :
    r.prepare p target source n = .ok (.answered true) := by
  have habsent : (source = .absent || target = .absent) = true := by simpa using h.symm
  simp only [prepare, hp, habsent]
  rfl

section Checks

variable {operand : Operand} {e : Element} {write : Bool}

theorem unfit_words_iff :
    operand.Unfit e.wordSize (e.wordCount * n) write ↔ operand.Unfit e.size n write := by
  have hnegative : (e.wordCount : Int) * n < 0 ↔ n < 0 := by
    cases e <;> simp only [Element.wordCount] <;> omega
  have hbytes : (e.wordCount : Int) * n * e.wordSize = n * e.size := by
    rw [Element.size]
    push_cast
    ring
  rw [Operand.Unfit, Operand.Unfit, hnegative, hbytes]

theorem exists_elements_eq_error (name : String) (hpresent : operand ≠ .absent)
    (h : operand.Unfit e.size n write) :
    ∃ error, elements operand e n write name = .error error :=
  Operand.exists_words_eq_error name hpresent (unfit_words_iff.2 h)

theorem exists_elements_eq_ok (name : String) (hplain : operand.IsPlain)
    (h : ¬ operand.Unfit e.size n write) :
    ∃ w, elements operand e n write name = .ok (some w) ∧ w.HoldsElements e n.toNat ∧
      (write = true → w.writable = true) := by
  obtain ⟨w, hwords, hsize, hcount, hwritable⟩ :=
    Operand.exists_words_eq_ok name hplain (mt unfit_words_iff.1 h)
  refine ⟨w, hwords, ⟨hsize, ?_⟩, hwritable⟩
  rw [hcount]
  cases e <;> simp only [Element.wordCount] <;> omega

end Checks

/-- Whether a call must be refused that has both its operands. -/
def MustRefuse (r : Routine) (target source : Operand) (count : Int) : Prop :=
  target.Unfit r.target.size count true ∨ source.Unfit r.source.size count false

instance (r : Routine) (target source : Operand) (count : Int) :
    Decidable (r.MustRefuse target source count) :=
  inferInstanceAs (Decidable (_ ∨ _))

theorem exists_prepare_eq_error (hp : p.ieee754 = true) (htarget : target ≠ .absent)
    (hsource : source ≠ .absent) (hplain : target.IsPlain) (h : r.MustRefuse target source n) :
    ∃ e, r.prepare p target source n = .error e := by
  have hpresent : (source = .absent || target = .absent) = false := by simp [htarget, hsource]
  by_cases hunfit : target.Unfit r.target.size n true
  · obtain ⟨e, he⟩ := exists_elements_eq_error "target" htarget hunfit
    refine ⟨e, ?_⟩
    simp only [prepare, hp, hpresent, he]
    rfl
  · obtain ⟨out, hout, _⟩ := exists_elements_eq_ok "target" hplain hunfit
    obtain ⟨e, he⟩ := exists_elements_eq_error "source" hsource (h.resolve_left hunfit)
    refine ⟨e, ?_⟩
    simp only [prepare, hp, hpresent, hout, he]
    rfl

theorem exists_prepare_eq_rows (hp : p.ieee754 = true) (hpresent : target ≠ .absent)
    (hpresent' : source ≠ .absent) (htarget : target.IsPlain) (hsource : source.IsPlain)
    (h : ¬ r.MustRefuse target source n) :
    ∃ out src, r.prepare p target source n = .ok (.rows out src) ∧
      out.HoldsElements r.target n.toNat ∧ out.writable = true ∧
      src.HoldsElements r.source n.toNat := by
  have hpresent : (source = .absent || target = .absent) = false := by simp [hpresent, hpresent']
  rw [MustRefuse, not_or] at h
  obtain ⟨out, hout, houtElements, hwritable⟩ := exists_elements_eq_ok "target" htarget h.1
  obtain ⟨src, hsrc, hsrcElements, _⟩ := exists_elements_eq_ok "source" hsource h.2
  refine ⟨out, src, ?_, houtElements, hwritable rfl, hsrcElements⟩
  simp only [prepare, hp, hpresent, hout, hsrc]
  rfl

/-- A call answers `false` where doubles have another form, and else `true` if an operand is absent.
Any other call is refused exactly if an operand is unfit. Memory stays as it is in all these cases;
in the remaining one the loop comes to its end, and no access fails. -/
theorem call_refused_iff (htarget : target.IsPlain) (hsource : source.IsPlain) (count : Int)
    (m : Memory) :
    (p.ieee754 = false → r.Ends p target source count m (.ok false) m) ∧
    (p.ieee754 = true → target = .absent ∨ source = .absent →
      r.Ends p target source count m (.ok true) m) ∧
    (p.ieee754 = true → target ≠ .absent → source ≠ .absent →
      ((∃ e, r.Ends p target source count m (.error e) m) ↔ r.MustRefuse target source count) ∧
      (¬ r.MustRefuse target source count →
        ∃ m', r.Ends p target source count m (.ok true) m')) := by
  refine ⟨?_, ?_, ?_⟩
  · intro hp
    exact ends_of_prepare_eq_answered (prepare_of_not_ieee754 hp) m
  · intro hp habsent
    exact ends_of_prepare_eq_answered (prepare_of_absent hp habsent) m
  · intro hp hpresent hpresent'
    have hdone : ¬ r.MustRefuse target source count →
        ∃ m', r.Ends p target source count m (.ok true) m' := by
      intro hfit
      obtain ⟨out, src, hprepare, hout, hwritable, hsrc⟩ :=
        exists_prepare_eq_rows hp hpresent hpresent' htarget hsource hfit
      exact ⟨_, ends_of_prepare_eq_rows hprepare hout hwritable hsrc m⟩
    refine ⟨⟨?_, ?_⟩, hdone⟩
    · rintro ⟨e, he, _⟩
      by_contra hfit
      obtain ⟨m', hm', _⟩ := hdone hfit
      rw [he] at hm'
      cases hm'
    · intro hrefuse
      obtain ⟨e, he⟩ := exists_prepare_eq_error hp hpresent hpresent' htarget hrefuse
      exact ⟨e, ends_of_prepare_eq_error he m⟩

/-- Two doubles do not go into fifteen bytes. They go into sixteen, over the halves that are still to
be read. -/
theorem call_refused_one_byte_short :
    (∃ e, halvesToDoubles.Ends { ieee754 := true, highWord := 1 }
      (.buffer { start := 0, itemSize := 1, axes := [⟨15, 1⟩], writable := true })
      (.buffer { start := 2, itemSize := 2, axes := [⟨2, 2⟩], writable := false }) 2
      ⟨#[0, 0, 0, 0x3C, 0, 0xC0, 0, 0, 0, 0, 0, 0, 0, 0, 0, 0]⟩ (.error e)
      ⟨#[0, 0, 0, 0x3C, 0, 0xC0, 0, 0, 0, 0, 0, 0, 0, 0, 0, 0]⟩) ∧
    ∃ m', halvesToDoubles.Ends { ieee754 := true, highWord := 1 }
      (.buffer { start := 0, itemSize := 1, axes := [⟨16, 1⟩], writable := true })
      (.buffer { start := 2, itemSize := 2, axes := [⟨2, 2⟩], writable := false }) 2
      ⟨#[0, 0, 0, 0x3C, 0, 0xC0, 0, 0, 0, 0, 0, 0, 0, 0, 0, 0]⟩ (.ok true) m' := by
  have hsource : (Operand.buffer ⟨2, 2, [⟨2, 2⟩], false⟩).IsPlain :=
    Operand.isPlain_of_single_axis rfl
  refine ⟨?_, ?_⟩
  · exact ((call_refused_iff (Operand.isPlain_of_single_axis rfl) hsource 2 _).2.2 rfl (by decide)
      (by decide)).1.2 (by decide)
  · exact ((call_refused_iff (Operand.isPlain_of_single_axis rfl) hsource 2 _).2.2 rfl (by decide)
      (by decide)).2 (by decide)

end Routine

end HalfPrecision
