/-!
# Nested lists and grids

A nested list is rectangular if the items of each list have one shape. It is then a grid: a shape
and the cells in row-major order. A grid with its axes in reverse order has the same cells, ordered
another way.
-/

namespace HalfPrecision

inductive Nested (α : Type) where
  | leaf (a : α)
  | node (items : List (Nested α))

structure Grid (α : Type) where
  shape : List Nat
  cells : List α
deriving DecidableEq

namespace Nested

variable {α : Type}

mutual

/-- The shape of a rectangular nested list. -/
def shape? : Nested α → Option (List Nat)
  | leaf _ => some []
  | node items =>
      match commonShape? items with
      | none => none
      | some none => some [0]
      | some (some s) => some (items.length :: s)

/-- The shape that all items have; it is left open if there are none. -/
def commonShape? : List (Nested α) → Option (Option (List Nat))
  | [] => some none
  | item :: rest =>
      match item.shape?, commonShape? rest with
      | some s, some none => some (some s)
      | some s, some (some s') => if s = s' then some (some s) else none
      | _, _ => none

end

mutual

/-- The leaves from left to right. -/
def leaves : Nested α → List α
  | leaf a => [a]
  | node items => leavesOfAll items

def leavesOfAll : List (Nested α) → List α
  | [] => []
  | item :: rest => item.leaves ++ leavesOfAll rest

end

/-- The greatest number of axes. -/
def axisLimit : Nat := 64

/-- The grid of a nested list that is rectangular and not too deep. -/
def toGrid? (v : Nested α) : Option (Grid α) :=
  match v.shape? with
  | some shape => if shape.length ≤ axisLimit then some { shape, cells := v.leaves } else none
  | none => none

end Nested

namespace Grid

variable {α β : Type}

/-- The number of cells of a shape. -/
def volume (shape : List Nat) : Nat := shape.foldr (· * ·) 1

/-- A list cut into `count` pieces of `size`. -/
def pieces (count size : Nat) (l : List α) : List (List α) :=
  (List.range count).map fun i => (l.drop (i * size)).take size

/-- The cells of a grid in the order of the reversed axes. -/
def reversedCells : List Nat → List α → List α
  | [], cells => cells
  | extent :: rest, cells =>
      let size := volume rest
      let rows := (pieces extent size cells).map (reversedCells rest)
      (List.range size).flatMap fun j => rows.filterMap (·[j]?)

/-- The grid with its axes in reverse order. -/
def reverseAxes (g : Grid α) : Grid α :=
  { shape := g.shape.reverse, cells := reversedCells g.shape g.cells }

/-- A grid without axes as one with a single cell along one axis. -/
def withAxis (g : Grid α) : Grid α := if g.shape.isEmpty then { g with shape := [1] } else g

def map (f : α → β) (g : Grid α) : Grid β := { shape := g.shape, cells := g.cells.map f }

end Grid

end HalfPrecision
