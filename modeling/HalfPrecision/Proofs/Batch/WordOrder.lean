import HalfPrecision.Proofs.Batch.Guarded
import HalfPrecision.Proofs.Conversion.RoundTrip
import HalfPrecision.Proofs.Memory.WordPair

/-!
# The order of the words of doubles

The platform tells which word of a double lies first. Doubles that are read and doubles that are
written keep to it alike: with the other order a batch reads what it would read if the words in
memory changed places, and writes doubles whose words have changed places. So halves that become
doubles and halves again come back under either order.
-/

namespace HalfPrecision

/-- A platform that follows IEEE 754, by the place of the high word. -/
def Platform.ofHighWord (highWord : Fin 2) : Platform := { ieee754 := true, highWord }

/-- Doubles read by either order are the same exactly if their words have changed places. -/
theorem Element.load_double_eq_iff {m m' : Memory} {address address' : Nat} :
    double.load (.ofHighWord 0) m address = double.load (.ofHighWord 1) m' address' ↔
      m.readWord 4 address = m'.readWord 4 (address' + 4) ∧
        m.readWord 4 (address + 4) = m'.readWord 4 address' := by
  have hlow := m.readWord_lt 4 (address + 4)
  have hlow' := m'.readWord_lt 4 address'
  change m.readWord 4 address * wordBase + m.readWord 4 (address + 4) =
    m'.readWord 4 (address' + 4) * wordBase + m'.readWord 4 address' ↔ _
  rw [wordBase]
  omega

namespace Layout

/-- A pattern, or the quiet NaN with its sign if it is a NaN. -/
def quieted (L : Layout) (bits : Nat) : Nat :=
  if L.IsNaN bits then (L.fields bits).sign * L.signMask ||| L.quietNan else bits

theorem halfOfDouble_doubleOfHalf {bits : Nat} (h : bits < 2 ^ half.width) :
    halfOfDouble (doubleOfHalf bits) = half.quieted bits := by
  have hroom : half.bias + half.mantissaBits ≤ double.bias := by decide
  rw [halfOfDouble, doubleOfHalf, half_extends_double.natCast_toNat_widenPattern hroom,
    half_extends_double.narrowPattern_widenPattern hroom, quieted,
    ← signed_eq_or half.quietNan_lt_signMask, half.wrap_of_lt h]

end Layout

namespace Routine

/-- Whether two rows in memory, the first one writable, hold `count` elements each that have no byte
in common. -/
structure Separate (r : Routine) (target source : Buffer) (count : Nat) (m : Memory) : Prop where
  writable : target.writable = true
  target_isRow : target.IsRow
  target_liesIn : target.LiesIn m
  target_size : count * r.target.size ≤ target.byteSize
  source_isRow : source.IsRow
  source_liesIn : source.LiesIn m
  source_size : count * r.source.size ≤ source.byteSize
  disjoint : Disjoint (target.window (count * r.target.size))
    (source.window (count * r.source.size))

namespace Separate

variable {r : Routine} {target source : Buffer} {count : Nat} {m : Memory}

theorem congr {m' : Memory} (h : r.Separate target source count m)
    (hsize : m'.bytes.size = m.bytes.size) : r.Separate target source count m' :=
  { h with
    target_liesIn := fun address hin => hsize ▸ h.target_liesIn address hin
    source_liesIn := fun address hin => hsize ▸ h.source_liesIn address hin }

theorem exchangeWords (h : r.Separate target source count m) (start n : Nat) :
    r.Separate target source count (m.exchangeWords start n) :=
  h.congr Memory.size_exchangeWords

/-- Every element of a row in memory lies in memory. -/
theorem element_le {b : Buffer} {size i : Nat} (hlies : b.LiesIn m) (hrow : b.IsRow)
    (hpos : 0 < size) (hsize : count * size ≤ b.byteSize) (hi : i < count) :
    b.start + (i + 1) * size ≤ m.bytes.size := by
  have hcount : (i + 1) * size ≤ count * size := Nat.mul_le_mul_right size hi
  have hfirst : 0 < (i + 1) * size := Nat.mul_pos (Nat.succ_pos i) hpos
  have hend := hlies.end_le hrow (by omega)
  omega

theorem ends (h : r.Separate target source count m) {p : Platform} (hp : p.ieee754 = true) :
    r.Ends p (.buffer target) (.buffer source) count m (.ok true)
      (r.convertAll p target.start source.start count m) :=
  ends_of_isRow hp h.target_isRow h.writable h.target_size h.source_isRow h.source_size m

theorem converted (h : r.Separate target source count m) (p : Platform) :
    r.Converted p target.start source.start count m
      (r.convertAll p target.start source.start count m) := by
  cases count with
  | zero => exact converted_zero
  | succ n =>
      apply converted_convertAll _ (readsAhead_of_disjoint h.disjoint)
      exact element_le h.target_liesIn h.target_isRow r.target.size_pos h.target_size
        (Nat.lt_succ_self n)

end Separate

variable {target source : Buffer} {count : Nat} {m : Memory}

/-- Doubles with exchanged words are read by the other order. -/
theorem Separate.read_convertAll_exchangeWords
    (h : doublesToHalves.Separate target source count m) {address : Nat}
    (hin : address ∈ target.window (count * 2)) :
    (doublesToHalves.convertAll (.ofHighWord 0) target.start source.start count
        (m.exchangeWords source.start count)).read address =
      (doublesToHalves.convertAll (.ofHighWord 1) target.start source.start count m).read
        address := by
  have hexchanged := (h.exchangeWords source.start count).converted (.ofHighWord 0)
  have horiginal := h.converted (.ofHighWord 1)
  obtain ⟨i, j, hi, hj, rfl⟩ :
      ∃ i j, i < count ∧ j < 2 ∧ address = target.start + i * 2 + j := by
    obtain ⟨hstart, hend⟩ := hin
    exact ⟨(address - target.start) / 2, (address - target.start) % 2, by omega, by omega,
      by omega⟩
  have hlies : ∀ i < count, source.start + (i + 1) * 8 ≤ m.bytes.size := by
    intro i hi
    exact element_le h.source_liesIn h.source_isRow (by decide) h.source_size hi
  have hload := Element.load_double_eq_iff.2 (Memory.readWord_exchangeWords hlies hi)
  have hword := (hexchanged.elements i hi).trans
    ((congrArg doublesToHalves.convert hload).trans (horiginal.elements i hi).symm)
  exact Memory.readWord_eq_iff.1 hword j hj

/-- Doubles are written by the other order with exchanged words. -/
theorem Separate.convertAll_eq_exchangeWords
    (h : halvesToDoubles.Separate target source count m) :
    halvesToDoubles.convertAll (.ofHighWord 0) target.start source.start count m =
      (halvesToDoubles.convertAll (.ofHighWord 1) target.start source.start count m).exchangeWords
        target.start count := by
  have hfirst := h.converted (.ofHighWord 0)
  have hsecond := h.converted (.ofHighWord 1)
  apply Memory.eq_exchangeWords
  · intro i hi
    rw [hsecond.size]
    exact element_le h.target_liesIn h.target_isRow (by decide) h.target_size hi
  · rw [hfirst.size, hsecond.size]
  · intro address hout
    rw [hfirst.frame address hout, hsecond.frame address hout]
  · intro i hi
    exact Element.load_double_eq_iff.1 ((hfirst.elements i hi).trans (hsecond.elements i hi).symm)

/-- The two orders of words are told apart by nothing but the words. Doubles whose words are
exchanged become the same halves under the other order; halves become doubles whose words are
exchanged; and under either order halves come back from doubles, a NaN as the quiet one with its
sign. -/
theorem ends_of_wordOrders :
    (∀ {target source : Buffer} {count : Nat} {m : Memory},
      doublesToHalves.Separate target source count m →
      ∃ m₀ m₁,
        doublesToHalves.Ends (.ofHighWord 0) (.buffer target) (.buffer source) count
          (m.exchangeWords source.start count) (.ok true) m₀ ∧
        doublesToHalves.Ends (.ofHighWord 1) (.buffer target) (.buffer source) count m
          (.ok true) m₁ ∧
        ∀ address ∈ target.window (count * 2), m₀.read address = m₁.read address) ∧
    (∀ {target source : Buffer} {count : Nat} {m : Memory},
      halvesToDoubles.Separate target source count m →
      ∃ m₀ m₁,
        halvesToDoubles.Ends (.ofHighWord 0) (.buffer target) (.buffer source) count m
          (.ok true) m₀ ∧
        halvesToDoubles.Ends (.ofHighWord 1) (.buffer target) (.buffer source) count m
          (.ok true) m₁ ∧
        m₀ = m₁.exchangeWords target.start count) ∧
    (∀ {halves doubles back : Buffer} {count : Nat} {m : Memory},
      halvesToDoubles.Separate doubles halves count m →
      doublesToHalves.Separate back doubles count m → ∀ highWord,
      ∃ middle final,
        halvesToDoubles.Ends (.ofHighWord highWord) (.buffer doubles) (.buffer halves) count m
          (.ok true) middle ∧
        doublesToHalves.Ends (.ofHighWord highWord) (.buffer back) (.buffer doubles) count middle
          (.ok true) final ∧
        ∀ i < count, final.readWord 2 (back.start + i * 2) =
          Layout.half.quieted (m.readWord 2 (halves.start + i * 2))) := by
  refine ⟨?_, ?_, ?_⟩
  · intro target source count m h
    exact ⟨_, _, (h.exchangeWords source.start count).ends rfl, h.ends rfl,
      fun _ => h.read_convertAll_exchangeWords⟩
  · intro target source count m h
    exact ⟨_, _, h.ends rfl, h.ends rfl, h.convertAll_eq_exchangeWords⟩
  · intro halves doubles back count m hwiden hnarrow highWord
    have hwidened := hwiden.converted (.ofHighWord highWord)
    have hback := hnarrow.congr hwidened.size
    refine ⟨_, _, hwiden.ends rfl, hback.ends rfl, ?_⟩
    intro i hi
    have hhalf := (hback.converted (.ofHighWord highWord)).elements i hi
    rw [show doublesToHalves.source = halvesToDoubles.target from rfl,
      hwidened.elements i hi] at hhalf
    exact hhalf.trans (Layout.halfOfDouble_doubleOfHalf (Memory.readWord_lt _ _ _))

/-- A NaN with its payload in the low word, which a wrong order would take for a denormal, and a
half that is a NaN and comes back as the quiet one. -/
theorem ends_of_wordOrders_low_payload :
    (∃ m₀ m₁,
      doublesToHalves.Ends (.ofHighWord 0)
        (.buffer { start := 10, itemSize := 1, axes := [⟨2, 1⟩], writable := true })
        (.buffer { start := 2, itemSize := 8, axes := [⟨1, 8⟩], writable := true }) 1
        ⟨#[1, 0xFC, 0, 0, 0xF0, 0xFF, 1, 0, 0, 0, 7, 7]⟩ (.ok true) m₀ ∧
      doublesToHalves.Ends (.ofHighWord 1)
        (.buffer { start := 10, itemSize := 1, axes := [⟨2, 1⟩], writable := true })
        (.buffer { start := 2, itemSize := 8, axes := [⟨1, 8⟩], writable := true }) 1
        ⟨#[1, 0xFC, 1, 0, 0, 0, 0, 0, 0xF0, 0xFF, 7, 7]⟩ (.ok true) m₁ ∧
      m₀.read 11 = m₁.read 11) ∧
    (∃ m₀ m₁ : Memory, m₀ = m₁.exchangeWords 2 1 ∧
      halvesToDoubles.Ends (.ofHighWord 0)
        (.buffer { start := 2, itemSize := 8, axes := [⟨1, 8⟩], writable := true })
        (.buffer { start := 0, itemSize := 2, axes := [⟨1, 2⟩], writable := false }) 1
        ⟨#[1, 0xFC, 1, 0, 0, 0, 0, 0, 0xF0, 0xFF, 7, 7]⟩ (.ok true) m₀) ∧
    ∃ middle final,
      doublesToHalves.Ends (.ofHighWord 0)
        (.buffer { start := 10, itemSize := 1, axes := [⟨2, 1⟩], writable := true })
        (.buffer { start := 2, itemSize := 8, axes := [⟨1, 8⟩], writable := true }) 1
        middle (.ok true) final ∧
      final.readWord 2 10 = 0xFE00 := by
  have hnarrow : doublesToHalves.Separate
      { start := 10, itemSize := 1, axes := [⟨2, 1⟩], writable := true }
      { start := 2, itemSize := 8, axes := [⟨1, 8⟩], writable := true } 1
      ⟨#[1, 0xFC, 1, 0, 0, 0, 0, 0, 0xF0, 0xFF, 7, 7]⟩ :=
    ⟨rfl, by decide, by decide, by decide, by decide, by decide, by decide,
      Set.Ico_disjoint_Ico.2 (by decide)⟩
  have hwiden : halvesToDoubles.Separate
      { start := 2, itemSize := 8, axes := [⟨1, 8⟩], writable := true }
      { start := 0, itemSize := 2, axes := [⟨1, 2⟩], writable := false } 1
      ⟨#[1, 0xFC, 1, 0, 0, 0, 0, 0, 0xF0, 0xFF, 7, 7]⟩ :=
    ⟨rfl, by decide, by decide, by decide, by decide, by decide, by decide,
      Set.Ico_disjoint_Ico.2 (by decide)⟩
  refine ⟨?_, ?_, ?_⟩
  · obtain ⟨m₀, m₁, hfirst, hsecond, hsame⟩ := ends_of_wordOrders.1 hnarrow
    exact ⟨m₀, m₁, hfirst, hsecond, hsame 11 ⟨by decide, by decide⟩⟩
  · obtain ⟨m₀, m₁, hfirst, -, hexchanged⟩ := ends_of_wordOrders.2.1 hwiden
    exact ⟨m₀, m₁, hexchanged, hfirst⟩
  · obtain ⟨middle, final, -, hback, hhalves⟩ := ends_of_wordOrders.2.2 hwiden hnarrow 0
    exact ⟨middle, final, hback, (hhalves 0 (by decide)).trans (by decide)⟩

end Routine

end HalfPrecision
