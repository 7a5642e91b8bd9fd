import HalfPrecision.Proofs.Grid.Shape

/-!
# Indexes of cells

A cell is found by its index, one number for each axis, at a place that counts the cells before it
in row-major order. In the grid of a nested list the cell of an index is the leaf that the index
leads to.
-/

namespace HalfPrecision

namespace Grid

variable {α β : Type}

/-- The place of an index in row-major order, if it lies within the shape. -/
def place? : List Nat → List Nat → Option Nat
  | [], [] => some 0
  | extent :: shape, i :: index =>
      if i < extent then (place? shape index).map (i * volume shape + ·) else none
  | _, _ => none

/-- The cell of an index. -/
def get? (g : Grid α) (index : List Nat) : Option α := (place? g.shape index).bind (g.cells[·]?)

/-- Whether a grid has as many cells as its shape calls for. -/
def IsFull (g : Grid α) : Prop := g.cells.length = volume g.shape

theorem volume_append (first second : List Nat) :
    volume (first ++ second) = volume first * volume second := by
  induction first with
  | nil => simp
  | cons extent shape ih => simp [ih, Nat.mul_assoc]

theorem volume_reverse (shape : List Nat) : volume shape.reverse = volume shape := by
  induction shape with
  | nil => rfl
  | cons extent shape ih =>
      rw [List.reverse_cons, volume_append, ih, volume_cons, volume_cons, volume_nil, Nat.mul_one,
        Nat.mul_comm]

theorem place?_lt {shape index : List Nat} {place : Nat} (h : place? shape index = some place) :
    place < volume shape := by
  induction shape generalizing index place with
  | nil =>
      cases index with
      | nil =>
          obtain rfl : 0 = place := Option.some.inj h
          exact Nat.one_pos
      | cons i index => cases h
  | cons extent shape ih =>
      cases index with
      | nil => cases h
      | cons i index =>
          rw [place?] at h
          split at h
          next hi =>
            obtain ⟨inner, hinner, rfl⟩ := Option.map_eq_some_iff.1 h
            have hlt := ih hinner
            have hrow := Nat.mul_le_mul_right (volume shape) (Nat.succ_le_of_lt hi)
            rw [Nat.succ_mul] at hrow
            rw [volume_cons]
            omega
          · cases h

/-- The last number of an index is the one that counts fastest. -/
theorem place?_concat (shape index : List Nat) (extent i : Nat) :
    place? (shape ++ [extent]) (index ++ [i]) =
      if i < extent then (place? shape index).map (· * extent + i) else none := by
  induction shape generalizing index with
  | nil =>
      cases index with
      | nil => simp [place?]
      | cons first rest => cases rest <;> simp [place?]
  | cons outer shape ih =>
      cases index with
      | nil => cases shape <;> simp [place?]
      | cons first rest =>
          simp only [List.cons_append, place?, ih, volume_append, volume_cons, volume_nil,
            Nat.mul_one]
          by_cases hi : i < extent
          · by_cases hfirst : first < outer
            · simp only [hi, hfirst, if_true, Option.map_map]
              congr 1
              funext place
              simp only [Function.comp_apply, Nat.add_mul, Nat.mul_assoc, Nat.add_assoc]
            · simp [hi, hfirst]
          · simp [hi]

theorem place?_of_length_ne {shape index : List Nat} (h : shape.length ≠ index.length) :
    place? shape index = none := by
  induction shape generalizing index with
  | nil =>
      cases index with
      | nil => exact absurd rfl h
      | cons i index => rfl
  | cons extent shape ih =>
      cases index with
      | nil => rfl
      | cons i index =>
          have hrest : shape.length ≠ index.length := fun heq => h (by simp [heq])
          simp [place?, ih hrest]

theorem mem_of_get?_eq_some {g : Grid α} {index : List Nat} {a : α} (h : g.get? index = some a) :
    a ∈ g.cells := by
  obtain ⟨place, -, hcell⟩ := Option.bind_eq_some_iff.1 h
  exact List.mem_of_getElem? hcell

theorem get?_map (f : α → β) (g : Grid α) (index : List Nat) :
    (g.map f).get? index = (g.get? index).map f := by
  simp only [get?, map, Option.map_bind, Function.comp_def, List.getElem?_map]

/-- In rows of one length, one after the other, a place tells the row and the place in it. -/
theorem getElem?_flatten {rows : List (List α)} {size : Nat}
    (h : ∀ row ∈ rows, row.length = size) {i : Nat} (hi : i < size) (j : Nat) :
    rows.flatten[j * size + i]? = rows[j]?.bind (·[i]?) := by
  induction rows generalizing j with
  | nil => rfl
  | cons row rest ih =>
      obtain ⟨hrow, hrest⟩ := List.forall_mem_cons.1 h
      rw [List.flatten_cons]
      cases j with
      | zero =>
          rw [Nat.zero_mul, Nat.zero_add, List.getElem?_append_left (hrow.symm ▸ hi)]
          rfl
      | succ j =>
          have hplace : (j + 1) * size + i = row.length + (j * size + i) := by
            rw [Nat.succ_mul, hrow]
            omega
          rw [hplace, List.getElem?_append_right (Nat.le_add_right _ _), Nat.add_sub_cancel_left,
            List.getElem?_cons_succ, ih hrest]

section Pieces

/-- The piece of a list that an index stands for. -/
def piece (size : Nat) (l : List α) (i : Nat) : List α := (l.drop (i * size)).take size

variable {count size : Nat} {l : List α} {i : Nat}

theorem pieces_eq : pieces count size l = (List.range count).map (piece size l) := rfl

theorem length_piece (h : l.length = count * size) (hi : i < count) :
    (piece size l i).length = size := by
  have hrow := Nat.mul_le_mul_right size (Nat.succ_le_of_lt hi)
  rw [Nat.succ_mul] at hrow
  rw [piece, List.length_take, List.length_drop]
  omega

theorem getElem?_piece {j : Nat} (hj : j < size) : (piece size l i)[j]? = l[i * size + j]? := by
  rw [piece, List.getElem?_take_of_lt hj, List.getElem?_drop]

/-- The pieces of rows of one length are the rows. -/
theorem piece_flatten {rows : List (List α)} (h : ∀ row ∈ rows, row.length = size)
    (hi : i < rows.length) : piece size rows.flatten i = rows[i] := by
  have hlength := (length_piece (length_flatten h) hi).trans (h _ (List.getElem_mem hi)).symm
  apply List.ext_getElem hlength
  intro j hj hj'
  have hsize : j < size := h _ (List.getElem_mem hi) ▸ hj'
  apply Option.some.inj
  rw [← List.getElem?_eq_getElem, ← List.getElem?_eq_getElem, getElem?_piece hsize,
    getElem?_flatten h hsize, List.getElem?_eq_getElem hi, Option.bind_some]

end Pieces

/-- The first number of an index tells the piece that has its cell. -/
theorem get?_cons (extent : Nat) (shape : List Nat) (cells : List α) (i : Nat) (index : List Nat) :
    (Grid.mk (extent :: shape) cells).get? (i :: index) =
      if i < extent then (Grid.mk shape (piece (volume shape) cells i)).get? index else none := by
  rw [get?, place?]
  by_cases hi : i < extent
  · rw [if_pos hi, if_pos hi, Option.bind_map]
    apply Option.bind_congr
    intro place hplace
    exact (getElem?_piece (place?_lt hplace)).symm
  · rw [if_neg hi, if_neg hi]
    rfl

theorem get?_of_length_ne {g : Grid α} {index : List Nat} (h : g.shape.length ≠ index.length) :
    g.get? index = none := by
  rw [get?, place?_of_length_ne h]
  rfl

end Grid

namespace Nested

variable {α : Type}

/-- The leaf that an index leads to. -/
def leafAt? : List Nat → Nested α → Option α
  | [], leaf a => some a
  | i :: index, node items => items[i]?.bind (leafAt? index)
  | _, _ => none

/-- The leaves from left to right are the cells in row-major order. -/
theorem HasShape.get?_leaves {v : Nested α} {shape : List Nat} (h : v.HasShape shape)
    (index : List Nat) : (Grid.mk shape v.leaves).get? index = v.leafAt? index := by
  induction h generalizing index with
  | leaf a => cases index <;> rfl
  | empty => cases index <;> rfl
  | @node items shape _ common ih =>
      cases index with
      | nil => rfl
      | cons i index =>
          have hrows : ∀ row ∈ items.map leaves, row.length = Grid.volume shape :=
            List.forall_mem_map.2 fun item hitem => (common item hitem).length_leaves
          rw [Grid.get?_cons, leaves, leavesOfAll_eq, leafAt?]
          by_cases hi : i < items.length
          · have hpiece := Grid.piece_flatten hrows (by simpa using hi)
            rw [if_pos hi, hpiece, List.getElem_map, ih _ (List.getElem_mem hi),
              List.getElem?_eq_getElem hi]
            rfl
          · rw [if_neg hi, List.getElem?_eq_none (Nat.le_of_not_lt hi)]
            rfl

end Nested

end HalfPrecision
