import HalfPrecision.Proofs.Batch.Cells
import HalfPrecision.Proofs.Grid.Reversal
import HalfPrecision.Scalar

/-!
# Arrays are converted leaf by leaf

On the native platform an array has the shape of the nested list that it was made from, one axis
for a lone leaf, and each of its cells is the leaf in its place converted as a single number. If the
axes are reversed before the conversion, those of the result are. There is no array with more axes
than the limit.
-/

namespace HalfPrecision

variable {α β γ : Type}

namespace Grid

theorem withAxis_of_ne_nil {g : Grid α} (h : g.shape ≠ []) : g.withAxis = g := by
  rw [withAxis, if_neg (by simpa using h)]

@[simp] theorem cells_withAxis (g : Grid α) : g.withAxis.cells = g.cells := by
  rw [withAxis]
  split <;> rfl

@[simp] theorem cells_map (f : α → β) (g : Grid α) : (g.map f).cells = g.cells.map f := rfl

theorem map_map (f : α → β) (f' : β → γ) (g : Grid α) : (g.map f).map f' = g.map (f' ∘ f) := by
  rw [map, map, List.map_map]
  rfl

end Grid

namespace Nested

variable {v : Nested α} {shape : List Nat}

/-- A leaf within lists of one item each. -/
def nest : Nat → α → Nested α
  | 0, a => leaf a
  | depth + 1, a => node [nest depth a]

theorem hasShape_nest (depth : Nat) (a : α) : (nest depth a).HasShape (List.replicate depth 1) := by
  induction depth with
  | zero => exact .leaf a
  | succ depth ih => exact .node (List.cons_ne_nil _ _) (by simpa using ih)

theorem HasShape.toGrid?_eq_some (h : v.HasShape shape) (hrank : shape.length ≤ axisLimit) :
    v.toGrid? = some ⟨shape, v.leaves⟩ := by
  rw [toGrid?, hasShape_iff.1 h]
  exact if_pos hrank

theorem HasShape.toGrid?_eq_none (h : v.HasShape shape) (hrank : axisLimit < shape.length) :
    v.toGrid? = none := by
  rw [toGrid?, hasShape_iff.1 h]
  exact if_neg (Nat.not_le_of_lt hrank)

end Nested

namespace Arrays

variable {cell : ProbeCell} {reversed : Bool} {shape : List Nat}

/-- What a nested list of a shape is converted as. -/
def arranged (reversed : Bool) (shape : List Nat) (v : Nested α) : Grid α :=
  (if reversed then (Grid.mk shape v.leaves).reverseAxes else ⟨shape, v.leaves⟩).withAxis

theorem gridOf_eq_ok {v : Nested α} (h : v.HasShape shape)
    (hrank : shape.length ≤ Nested.axisLimit) :
    gridOf reversed v = .ok (arranged reversed shape v) := by
  rw [gridOf, h.toGrid?_eq_some hrank]
  rfl

/-- Too many axes are refused as no shape at all is. -/
theorem gridOf_eq_error {v : Nested α} (h : v.HasShape shape)
    (hrank : Nested.axisLimit < shape.length) : gridOf reversed v = .error .ragged := by
  rw [gridOf, h.toGrid?_eq_none hrank]

theorem mem_leaves_of_mem_arranged {v : Nested α} {a : α}
    (h : a ∈ (arranged reversed shape v).cells) : a ∈ v.leaves := by
  rw [arranged, Grid.cells_withAxis] at h
  cases reversed with
  | false => exact h
  | true => exact Grid.mem_of_mem_reversedCells h

theorem answer_convertIfOk (hcell : cell.get.answer = .ok .native) (r : Routine) (g : Grid Nat) :
    (convertIfOk r cell (.ok g)).answer = .ok (g.map r.convert) := by
  have hieee : Platform.native.ieee754 = true := rfl
  simp only [convertIfOk, convert, hcell, hieee, if_true, convertCells_native]
  rfl

section Halves

variable {cells : List Int} (h : ∀ n ∈ cells, Layout.half.Fits n)

include h

theorem halfCells_of_fits : halfCells cells = .ok (cells.map Int.toNat) :=
  if_pos (List.all_eq_true.2 fun n hn => decide_eq_true (h n hn))

/-- Halves that fit are kept as they are cut from integers with a sign. -/
theorem cutCells_of_fits : cutCells cells = .ok (cells.map Int.toNat) := by
  have hkind : IntegerKind.of? cells = some .signed := by
    apply if_pos
    rw [List.all_eq_true]
    intro n hn
    obtain ⟨hlow, hhigh⟩ := h n hn
    have hwidth : Layout.half.width = 16 := rfl
    rw [hwidth] at hhigh
    simp only [isSigned, Bool.and_eq_true, decide_eq_true_eq]
    omega
  have hcut : cells.map IntegerKind.signed.cut = cells.map Int.toNat := by
    apply List.map_congr_left
    intro n hn
    obtain ⟨hlow, hhigh⟩ := h n hn
    obtain ⟨k, rfl⟩ := Int.eq_ofNat_of_zero_le hlow
    exact Layout.half.wrap_of_lt (Int.ofNat_lt.1 hhigh)
  rw [cutCells, hkind, ← hcut]

end Halves

theorem halfGrid_eq_ok {v : Nested Int} (h : v.HasShape shape)
    (hrank : shape.length ≤ Nested.axisLimit) (hfits : ∀ leaf ∈ v.leaves, Layout.half.Fits leaf) :
    halfGrid reversed v = .ok ((arranged reversed shape v).map Int.toNat) := by
  have hcells : ∀ n ∈ (arranged reversed shape v).cells, Layout.half.Fits n :=
    fun n hn => hfits n (mem_leaves_of_mem_arranged hn)
  rw [halfGrid, gridOf_eq_ok h hrank]
  cases reversed with
  | false =>
      change (halfCells (arranged false shape v).cells).bind _ = _
      rw [halfCells_of_fits hcells]
      rfl
  | true =>
      change (cutCells (arranged true shape v).cells).bind _ = _
      rw [cutCells_of_fits hcells]
      rfl

/-- A conversion, of an array or of the same with its axes reversed, gives an array of the shape of
a nested list. Its cells are related to the leaves one by one, so each of them to the leaf that its
index leads to, and reversing the axes before the conversion reverses them in the result. -/
def Elementwise (conversion : Bool → Except ArrayError (Grid Nat)) (v : Nested α)
    (shape : List Nat) (related : α → Nat → Prop) : Prop :=
  ∃ out, conversion false = .ok out ∧ out.shape = (if shape = [] then [1] else shape) ∧
    List.Forall₂ related v.leaves out.cells ∧
    (shape ≠ [] → (∀ index, Option.Rel related (v.leafAt? index) (out.get? index)) ∧
      ∃ reversed, conversion true = .ok reversed ∧ reversed.IsReversalOf out)

theorem isReversalOf_arranged {v : Nested α} (h : v.HasShape shape) (hne : shape ≠ []) :
    (arranged true shape v).IsReversalOf (arranged false shape v) := by
  have hfull : (Grid.mk shape v.leaves).IsFull := h.length_leaves
  have hreversed : (Grid.mk shape v.leaves).reverseAxes.shape ≠ [] := by
    simpa [Grid.reverseAxes] using hne
  have hshape : (Grid.mk shape v.leaves).shape ≠ [] := hne
  rw [arranged, arranged, if_pos rfl, if_neg Bool.false_ne_true,
    Grid.withAxis_of_ne_nil hreversed, Grid.withAxis_of_ne_nil hshape]
  exact Grid.isReversalOf_reverseAxes hfull

/-- A cell of the converted array is that of the leaf in its place. -/
theorem rel_leafAt?_get?_map {v : Nested α} (h : v.HasShape shape) (hne : shape ≠ [])
    {related : α → Nat → Prop} {f : α → Nat} (hrelated : ∀ leaf ∈ v.leaves, related leaf (f leaf))
    (index : List Nat) :
    Option.Rel related (v.leafAt? index) (((arranged false shape v).map f).get? index) := by
  have hshape : (Grid.mk shape v.leaves).shape ≠ [] := hne
  rw [arranged, if_neg Bool.false_ne_true, Grid.withAxis_of_ne_nil hshape, Grid.get?_map,
    ← h.get?_leaves]
  cases hleaf : (Grid.mk shape v.leaves).get? index with
  | none => exact .none
  | some leaf => exact .some (hrelated leaf (Grid.mem_of_get?_eq_some hleaf))

theorem elementwise_of_map {conversion : Bool → Except ArrayError (Grid Nat)} {v : Nested α}
    {related : α → Nat → Prop} (f : α → Nat) (h : v.HasShape shape)
    (hconversion : ∀ reversed, conversion reversed = .ok ((arranged reversed shape v).map f))
    (hrelated : ∀ leaf ∈ v.leaves, related leaf (f leaf)) :
    Elementwise conversion v shape related := by
  refine ⟨_, hconversion false, ?_, ?_, ?_⟩
  · cases shape <;> rfl
  · rw [Grid.cells_map, arranged, Grid.cells_withAxis, List.forall₂_map_right_iff]
    exact List.forall₂_same.2 hrelated
  · intro hne
    exact ⟨rel_leafAt?_get?_map h hne hrelated, _, hconversion true,
      (isReversalOf_arranged h hne).map f⟩

variable {cell : ProbeCell}

theorem elementwise_singlesToHalves (hcell : cell.get.answer = .ok .native) {v : Nested Nat}
    (h : v.HasShape shape) (hrank : shape.length ≤ Nested.axisLimit) :
    Elementwise (fun reversed => (singlesToHalves cell reversed v).answer) v shape
      fun leaf half => Layout.narrow .single .half (Layout.double.convertToEven .single leaf) =
        .ok half := by
  apply elementwise_of_map
    (fun (leaf : Nat) => halfOfSingle (Layout.double.convertToEven .single leaf)) h
  · intro reversed
    rw [singlesToHalves, gridOf_eq_ok h hrank, Except.map, answer_convertIfOk hcell, Grid.map_map]
    rfl
  · intro leaf _
    exact Layout.narrow_eq_ok Layout.half_extends_single _

theorem elementwise_doublesToHalves (hcell : cell.get.answer = .ok .native) {v : Nested Nat}
    (h : v.HasShape shape) (hrank : shape.length ≤ Nested.axisLimit) :
    Elementwise (fun reversed => (doublesToHalves cell reversed v).answer) v shape
      fun leaf half => Platform.native.toHalf leaf = .ok half := by
  apply elementwise_of_map (fun (leaf : Nat) => halfOfDouble leaf) h
  · intro reversed
    rw [doublesToHalves, gridOf_eq_ok h hrank, answer_convertIfOk hcell]
    rfl
  · intro leaf _
    rfl

section Halves

variable (hcell : cell.get.answer = .ok .native) {v : Nested Int} (h : v.HasShape shape)
  (hrank : shape.length ≤ Nested.axisLimit) (hfits : ∀ leaf ∈ v.leaves, Layout.half.Fits leaf)

include hcell h hrank hfits

theorem elementwise_of_halves (r : Routine) {related : Int → Nat → Prop}
    (hrelated : ∀ leaf ∈ v.leaves, related leaf (r.convert leaf.toNat)) :
    Elementwise (fun reversed => (convertIfOk r cell (halfGrid reversed v)).answer) v shape
      related := by
  apply elementwise_of_map (fun leaf => r.convert leaf.toNat) h
  · intro reversed
    rw [halfGrid_eq_ok h hrank hfits, answer_convertIfOk hcell, Grid.map_map]
    rfl
  · exact hrelated

theorem elementwise_halvesToSingles :
    Elementwise (fun reversed => (halvesToSingles cell reversed v).answer) v shape
      fun leaf single => Layout.widen .half .single leaf = .ok single := by
  apply elementwise_of_halves hcell h hrank hfits
  intro leaf hleaf
  rw [Layout.widen_eq_ok Layout.half_extends_single, Routine.convert, singleOfHalf,
    Int.toNat_of_nonneg (hfits leaf hleaf).1,
    Layout.half_extends_single.natCast_toNat_widenPattern (by decide)]

theorem elementwise_halvesToDoubles :
    Elementwise (fun reversed => (halvesToDoubles cell reversed v).answer) v shape
      fun leaf double => Layout.widen .half .double leaf = .ok double ∧
        Platform.native.ofHalf leaf = .ok double := by
  apply elementwise_of_halves hcell h hrank hfits
  intro leaf hleaf
  rw [Layout.widen_eq_ok Layout.half_extends_double, Routine.convert,
    Int.toNat_of_nonneg (hfits leaf hleaf).1]
  refine ⟨?_, rfl⟩
  rw [doubleOfHalf, Layout.half_extends_double.natCast_toNat_widenPattern (by decide)]

end Halves

/-- On the native platform arrays of at most 64 axes are converted leaf by leaf. Doubles become the
halves that they become one at a time, as do doubles that are rounded to singles first; halves
become the singles and the doubles that they are widened to, and the doubles are those that they
become one at a time. -/
theorem conversions_elementwise (hcell : cell.get.answer = .ok .native)
    (hrank : shape.length ≤ Nested.axisLimit) :
    (∀ {v : Nested Nat}, v.HasShape shape →
      (Elementwise (fun reversed => (singlesToHalves cell reversed v).answer) v shape
        fun leaf half => Layout.narrow .single .half (Layout.double.convertToEven .single leaf) =
          .ok half) ∧
      Elementwise (fun reversed => (doublesToHalves cell reversed v).answer) v shape
        fun leaf half => Platform.native.toHalf leaf = .ok half) ∧
    (∀ {v : Nested Int}, v.HasShape shape → (∀ leaf ∈ v.leaves, Layout.half.Fits leaf) →
      (Elementwise (fun reversed => (halvesToSingles cell reversed v).answer) v shape
        fun leaf single => Layout.widen .half .single leaf = .ok single) ∧
      Elementwise (fun reversed => (halvesToDoubles cell reversed v).answer) v shape
        fun leaf double => Layout.widen .half .double leaf = .ok double ∧
          Platform.native.ofHalf leaf = .ok double) := by
  refine ⟨fun h => ⟨?_, ?_⟩, fun h hfits => ⟨?_, ?_⟩⟩
  · exact elementwise_singlesToHalves hcell h hrank
  · exact elementwise_doublesToHalves hcell h hrank
  · exact elementwise_halvesToSingles hcell h hrank hfits
  · exact elementwise_halvesToDoubles hcell h hrank hfits

/-- Among four doubles are a NaN with a low payload, a tie above the largest half and the least
denormal; among four halves that become doubles are a NaN and the negative denormal. -/
theorem conversions_elementwise_two_by_two :
    (∃ out reversed,
      (doublesToHalves (.ofPlatform .native) false (.node
        [.node [.leaf 0x3FF0000000000000, .leaf 0x7FF0000000000001],
          .node [.leaf 0x40EFFE0000000000, .leaf 0x3E70000000000000]])).answer = .ok out ∧
      out.shape = [2, 2] ∧ out.cells = [0x3C00, 0x7E00, 0x7C00, 1] ∧
      (doublesToHalves (.ofPlatform .native) true (.node
        [.node [.leaf 0x3FF0000000000000, .leaf 0x7FF0000000000001],
          .node [.leaf 0x40EFFE0000000000, .leaf 0x3E70000000000000]])).answer = .ok reversed ∧
      reversed.get? [1, 0] = some 0x7E00) ∧
    ∃ out,
      (halvesToDoubles (.ofPlatform .native) false (.node
        [.node [.leaf 0x3C00, .leaf 0x7C01], .node [.leaf 0x8001, .leaf 0]])).answer = .ok out ∧
      out.cells = [0x3FF0000000000000, 0x7FF8000000000000, 0xBE70000000000000, 0] := by
  have hdoubles : (Nested.node
      [.node [.leaf 0x3FF0000000000000, .leaf 0x7FF0000000000001],
        .node [.leaf 0x40EFFE0000000000, .leaf 0x3E70000000000000]] : Nested Nat).HasShape [2, 2] :=
    Nested.hasShape_iff.2 rfl
  have hhalves : (Nested.node
      [.node [.leaf 0x3C00, .leaf 0x7C01], .node [.leaf 0x8001, .leaf 0]] : Nested Int).HasShape
        [2, 2] := Nested.hasShape_iff.2 rfl
  have hconversions := @conversions_elementwise [2, 2] (.ofPlatform .native) rfl (by decide)
  refine ⟨?_, ?_⟩
  · obtain ⟨out, hout, hshape, hrelated, hreversible⟩ := (hconversions.1 hdoubles).2
    obtain ⟨-, reversed, hreversed, hreversal⟩ := hreversible (by decide)
    have hcells : [_, _, _, _] = out.cells := List.forall₂_eq_eq_eq ▸ List.forall₂_map_left_iff.2
      (hrelated.imp fun _ _ h => Except.ok.inj h)
    refine ⟨out, reversed, hout, hshape, hcells.symm.trans (by decide), hreversed, ?_⟩
    rw [show [1, 0] = [0, 1].reverse from rfl, hreversal.get?, Grid.get?, hshape, ← hcells]
    decide
  · obtain ⟨out, hout, -, hrelated, -⟩ := (hconversions.2 hhalves (by decide)).2
    have hcells : [_, _, _, _] = out.cells := List.forall₂_eq_eq_eq ▸ List.forall₂_map_left_iff.2
      (hrelated.imp fun _ _ h => Except.ok.inj (And.right h))
    exact ⟨out, hout, hcells.symm.trans (by decide)⟩

/-- What is nested too deeply is refused, and nothing is probed. -/
theorem refused_of_axisLimit_lt (hrank : Nested.axisLimit < shape.length) (reversed : Bool) :
    (∀ {v : Nested Nat}, v.HasShape shape →
      singlesToHalves cell reversed v = { answer := .error .ragged, cell } ∧
      doublesToHalves cell reversed v = { answer := .error .ragged, cell }) ∧
    (∀ {v : Nested Int}, v.HasShape shape →
      halvesToSingles cell reversed v = { answer := .error .ragged, cell } ∧
      halvesToDoubles cell reversed v = { answer := .error .ragged, cell }) := by
  refine ⟨fun h => ⟨?_, ?_⟩, fun h => ⟨?_, ?_⟩⟩
  · rw [singlesToHalves, gridOf_eq_error h hrank]
    rfl
  · rw [doublesToHalves, gridOf_eq_error h hrank]
    rfl
  · rw [halvesToSingles, halfGrid, gridOf_eq_error h hrank]
    rfl
  · rw [halvesToDoubles, halfGrid, gridOf_eq_error h hrank]
    rfl

/-- The number one within 65 lists is not converted. -/
theorem not_elementwise_of_65_axes :
    (ProbeCell.ofPlatform .native).get.answer = .ok .native ∧
    (Nested.nest 65 0x3FF0000000000000).HasShape (List.replicate 65 1) ∧
    ¬ Elementwise
      (fun reversed => (doublesToHalves (.ofPlatform .native) reversed
        (Nested.nest 65 0x3FF0000000000000)).answer)
      (Nested.nest 65 0x3FF0000000000000) (List.replicate 65 1)
      fun leaf half => Platform.native.toHalf leaf = .ok half := by
  have hshape := Nested.hasShape_nest 65 0x3FF0000000000000
  refine ⟨rfl, hshape, ?_⟩
  rintro ⟨out, hout, -⟩
  have hrefused := (@refused_of_axisLimit_lt _ (.ofPlatform .native) (by decide) false).1 hshape
  have hanswer := congrArg Probed.answer hrefused.2
  cases hanswer.symm.trans hout

end Arrays

end HalfPrecision
