import HalfPrecision.Proofs.Grid.Index

/-!
# Reversed axes

A grid with its axes reversed has each cell at the reversed index, and no others. Its cells are, for
each place in the rows, the cells that the rows have there after their own axes are reversed.
-/

namespace HalfPrecision.Grid

variable {α β : Type}

/-- Whether a grid is another one with its axes in reverse order. -/
structure IsReversalOf (reversed g : Grid α) : Prop where
  shape : reversed.shape = g.shape.reverse
  full : reversed.IsFull
  get? : ∀ index, reversed.get? index.reverse = g.get? index

section Columns

/-- The columns of rows of one size. -/
def columns (size : Nat) (rows : List (List α)) : List (List α) :=
  (List.range size).map fun j => rows.filterMap (·[j]?)

variable {size : Nat} {rows : List (List α)}

theorem length_columns : (columns size rows).length = size := by
  rw [columns, List.length_map, List.length_range]

theorem getElem?_filterMap_getElem? {j : Nat} (h : ∀ row ∈ rows, j < row.length) (i : Nat) :
    (rows.filterMap (·[j]?))[i]? = rows[i]?.bind (·[j]?) := by
  induction rows generalizing i with
  | nil => rfl
  | cons row rest ih =>
      obtain ⟨hrow, hrest⟩ := List.forall_mem_cons.1 h
      have hcell : row[j]? = some row[j] := List.getElem?_eq_getElem hrow
      rw [List.filterMap_cons, hcell]
      cases i with
      | zero => exact hcell.symm
      | succ i => exact ih hrest i

theorem length_filterMap_getElem? {j : Nat} (h : ∀ row ∈ rows, j < row.length) :
    (rows.filterMap (·[j]?)).length = rows.length := by
  induction rows with
  | nil => rfl
  | cons row rest ih =>
      obtain ⟨hrow, hrest⟩ := List.forall_mem_cons.1 h
      rw [List.filterMap_cons, List.getElem?_eq_getElem hrow, List.length_cons, ih hrest,
        List.length_cons]

variable (h : ∀ row ∈ rows, row.length = size)

include h

theorem length_of_mem_columns {column : List α} (hcolumn : column ∈ columns size rows) :
    column.length = rows.length := by
  obtain ⟨j, hj, rfl⟩ := List.mem_map.1 hcolumn
  exact length_filterMap_getElem? fun row hrow => (h row hrow).symm ▸ List.mem_range.1 hj

/-- A row and a column meet in one cell. -/
theorem getElem?_columns {j : Nat} (hj : j < size) (i : Nat) :
    (columns size rows)[j]?.bind (·[i]?) = rows[i]?.bind (·[j]?) := by
  rw [columns, List.getElem?_map, List.getElem?_range hj]
  exact getElem?_filterMap_getElem? (fun row hrow => (h row hrow).symm ▸ hj) i

end Columns

section ReverseAxes

variable {extent : Nat} {shape : List Nat} {cells : List α}

/-- The rows along the first axis, with their own axes reversed. -/
def reversedRows (extent : Nat) (shape : List Nat) (cells : List α) : List (List α) :=
  (List.range extent).map fun i => reversedCells shape (piece (volume shape) cells i)

theorem reversedCells_cons :
    reversedCells (extent :: shape) cells =
      (columns (volume shape) (reversedRows extent shape cells)).flatten := by
  rw [reversedCells, pieces_eq, List.map_map, List.flatMap_def]
  rfl

theorem length_reversedRows : (reversedRows extent shape cells).length = extent := by
  rw [reversedRows, List.length_map, List.length_range]

theorem length_reversedCells (h : cells.length = volume shape) :
    (reversedCells shape cells).length = volume shape := by
  induction shape generalizing cells with
  | nil => exact h
  | cons extent rest ih =>
      have hrows : ∀ row ∈ reversedRows extent rest cells, row.length = volume rest :=
        List.forall_mem_map.2 fun i hi => ih (length_piece h (List.mem_range.1 hi))
      rw [reversedCells_cons, length_flatten fun _ => length_of_mem_columns hrows,
        length_columns, length_reversedRows, volume_cons, Nat.mul_comm]

/-- A cell of a row comes to stand in the column of its place. -/
theorem getElem?_reversedCells_cons (h : cells.length = volume (extent :: shape)) {i j : Nat}
    (hi : i < extent) (hj : j < volume shape) :
    (reversedCells (extent :: shape) cells)[j * extent + i]? =
      (reversedCells shape (piece (volume shape) cells i))[j]? := by
  have hrows : ∀ row ∈ reversedRows extent shape cells, row.length = volume shape :=
    List.forall_mem_map.2 fun k hk =>
      length_reversedCells (length_piece h (List.mem_range.1 hk))
  have hcolumns : ∀ column ∈ columns (volume shape) (reversedRows extent shape cells),
      column.length = extent :=
    fun column hcolumn => (length_of_mem_columns hrows hcolumn).trans length_reversedRows
  rw [reversedCells_cons, getElem?_flatten hcolumns hi, getElem?_columns hrows hj, reversedRows,
    List.getElem?_map, List.getElem?_range hi]
  rfl

/-- With the axes reversed it is the last number that tells the piece. -/
theorem get?_reverseAxes_cons (h : cells.length = volume (extent :: shape)) (i : Nat)
    (index : List Nat) :
    (Grid.mk (extent :: shape) cells).reverseAxes.get? (i :: index).reverse =
      if i < extent then
        (Grid.mk shape (piece (volume shape) cells i)).reverseAxes.get? index.reverse
      else none := by
  rw [get?, reverseAxes, List.reverse_cons, List.reverse_cons, place?_concat]
  by_cases hi : i < extent
  · rw [if_pos hi, if_pos hi, Option.bind_map]
    apply Option.bind_congr
    intro place hplace
    have hlt := place?_lt hplace
    rw [volume_reverse] at hlt
    exact getElem?_reversedCells_cons h hi hlt
  · rw [if_neg hi, if_neg hi]
    rfl

/-- The cell of an index is found at the reversed index after the axes are reversed. -/
theorem get?_reverseAxes (h : cells.length = volume shape) (index : List Nat) :
    (Grid.mk shape cells).reverseAxes.get? index.reverse = (Grid.mk shape cells).get? index := by
  by_cases hlength : shape.length = index.length
  · induction shape generalizing cells index with
    | nil =>
        obtain rfl := List.length_eq_zero_iff.1 hlength.symm
        rfl
    | cons extent rest ih =>
        obtain ⟨i, index, rfl⟩ := List.exists_cons_of_length_eq_add_one hlength.symm
        rw [get?_reverseAxes_cons h, get?_cons]
        by_cases hi : i < extent
        · rw [if_pos hi, if_pos hi]
          exact ih (length_piece h hi) index (Nat.succ.inj hlength)
        · rw [if_neg hi, if_neg hi]
  · have hreversed : shape.reverse.length ≠ index.reverse.length := by simpa using hlength
    exact (get?_of_length_ne hreversed).trans (get?_of_length_ne hlength).symm

theorem mem_of_mem_reversedCells {a : α} (h : a ∈ reversedCells shape cells) : a ∈ cells := by
  induction shape generalizing cells with
  | nil => exact h
  | cons extent rest ih =>
      obtain ⟨j, -, hcolumn⟩ := List.mem_flatMap.1 h
      obtain ⟨row, hrow, hcell⟩ := List.mem_filterMap.1 hcolumn
      obtain ⟨part, hpart, rfl⟩ := List.mem_map.1 hrow
      obtain ⟨i, -, rfl⟩ := List.mem_map.1 hpart
      exact List.mem_of_mem_drop (List.mem_of_mem_take (ih (List.mem_of_getElem? hcell)))

end ReverseAxes

variable {g reversed : Grid α}

theorem isReversalOf_reverseAxes (h : g.IsFull) : g.reverseAxes.IsReversalOf g where
  shape := rfl
  full := (length_reversedCells h).trans (volume_reverse g.shape).symm
  get? := get?_reverseAxes h

theorem IsReversalOf.map (h : reversed.IsReversalOf g) (f : α → β) :
    (reversed.map f).IsReversalOf (g.map f) where
  shape := h.shape
  full := (List.length_map f).trans h.full
  get? index := by rw [get?_map, get?_map, h.get?]

end HalfPrecision.Grid
