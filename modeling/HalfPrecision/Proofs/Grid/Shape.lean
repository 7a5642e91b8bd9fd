import HalfPrecision.Grid

/-!
# Rectangular nested lists

A nested list is rectangular if at each level all items have one shape. The shape is computed from
the items, and it counts the leaves.
-/

namespace HalfPrecision

namespace Grid

@[simp] theorem volume_nil : volume [] = 1 := rfl

@[simp] theorem volume_cons (extent : Nat) (shape : List Nat) :
    volume (extent :: shape) = extent * volume shape := rfl

/-- Rows of one length, one after the other, have as many cells as a shape with that extent. -/
theorem length_flatten {α : Type} {rows : List (List α)} {size : Nat}
    (h : ∀ row ∈ rows, row.length = size) : rows.flatten.length = rows.length * size := by
  induction rows with
  | nil => simp
  | cons row rest ih =>
      obtain ⟨hrow, hrest⟩ := List.forall_mem_cons.1 h
      rw [List.flatten_cons, List.length_append, hrow, ih hrest, List.length_cons, Nat.succ_mul,
        Nat.add_comm]

end Grid

namespace Nested

variable {α : Type}

/-- A leaf has no axis. The items of a list have one shape, before which stands their number; a list
without items has a single axis. -/
inductive HasShape : Nested α → List Nat → Prop
  | leaf (a : α) : HasShape (leaf a) []
  | empty : HasShape (node []) [0]
  | node {items : List (Nested α)} {shape : List Nat} (nonempty : items ≠ [])
      (common : ∀ item ∈ items, HasShape item shape) :
      HasShape (node items) (items.length :: shape)

/-- What holds of leaves, and of lists if it holds of their items, holds of all nested lists. -/
theorem induction {motive : Nested α → Prop} (leaf : ∀ a, motive (leaf a))
    (node : ∀ items, (∀ item ∈ items, motive item) → motive (node items)) : ∀ v, motive v
  | .leaf a => leaf a
  | .node items => node items fun item _ => induction leaf node item

theorem eq_nil_of_commonShape? {items : List (Nested α)} (h : commonShape? items = some none) :
    items = [] := by
  cases items with
  | nil => rfl
  | cons item rest =>
      rw [commonShape?] at h
      split at h <;> simp at h

/-- A list that is not empty has a common shape of its items exactly if each of them has it. -/
theorem commonShape?_eq_some_iff {items : List (Nested α)} {shape : List Nat} :
    commonShape? items = some (some shape) ↔
      items ≠ [] ∧ ∀ item ∈ items, item.shape? = some shape := by
  induction items with
  | nil => simp [commonShape?]
  | cons item rest ih =>
      constructor
      · intro h
        refine ⟨List.cons_ne_nil _ _, List.forall_mem_cons.2 ?_⟩
        rw [commonShape?] at h
        split at h
        next s hitem hrest =>
          obtain rfl : s = shape := by simpa using h
          rw [eq_nil_of_commonShape? hrest]
          exact ⟨hitem, List.forall_mem_nil _⟩
        next s s' hitem hrest =>
          obtain ⟨rfl, rfl⟩ : s = s' ∧ s = shape := by simpa using h
          exact ⟨hitem, (ih.1 hrest).2⟩
        · cases h
      · rintro ⟨-, h⟩
        obtain ⟨hitem, hothers⟩ := List.forall_mem_cons.1 h
        by_cases hrest : rest = []
        · simp [commonShape?, hitem, hrest]
        · simp [commonShape?, hitem, ih.2 ⟨hrest, hothers⟩]

/-- The computed shape is the one that a nested list has, and there is none if it has none. -/
theorem hasShape_iff {v : Nested α} {shape : List Nat} :
    v.HasShape shape ↔ v.shape? = some shape := by
  constructor
  · intro h
    induction h with
    | leaf a => rfl
    | empty => rfl
    | node hne _ ih => rw [shape?, commonShape?_eq_some_iff.2 ⟨hne, ih⟩]
  · intro h
    induction v using Nested.induction generalizing shape with
    | leaf a =>
        obtain rfl : [] = shape := Option.some.inj h
        exact .leaf a
    | node items ih =>
        rw [shape?] at h
        split at h
        · cases h
        next hcommon =>
          obtain rfl : [0] = shape := Option.some.inj h
          rw [eq_nil_of_commonShape? hcommon]
          exact .empty
        next s hcommon =>
          obtain rfl : items.length :: s = shape := Option.some.inj h
          obtain ⟨hne, hitems⟩ := commonShape?_eq_some_iff.1 hcommon
          exact .node hne fun item hmem => ih item hmem (hitems item hmem)

theorem leavesOfAll_eq (items : List (Nested α)) :
    leavesOfAll items = (items.map leaves).flatten := by
  induction items with
  | nil => rfl
  | cons item rest ih => rw [leavesOfAll, ih, List.map_cons, List.flatten_cons]

theorem HasShape.length_leaves {v : Nested α} {shape : List Nat} (h : v.HasShape shape) :
    v.leaves.length = Grid.volume shape := by
  induction h with
  | leaf a => rfl
  | empty => rfl
  | node _ _ ih =>
      rw [leaves, leavesOfAll_eq, Grid.length_flatten (List.forall_mem_map.2 ih), List.length_map,
        Grid.volume_cons]

end Nested

end HalfPrecision
