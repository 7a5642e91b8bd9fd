import HalfPrecision.Memory

/-!
# Buffers

A buffer is a grid of items in memory: where its first item lies, how large an item is, and for each
axis how many items it has and how far apart neighbours are. A part of a buffer is a buffer on the
same memory.
-/

namespace HalfPrecision

/-- The number of items along an axis and the distance in bytes from one to the next. -/
structure Axis where
  extent : Nat
  stride : Int
deriving DecidableEq, Repr

structure Buffer where
  start : Nat
  itemSize : Nat
  axes : List Axis
  writable : Bool
deriving DecidableEq, Repr

namespace Buffer

/-- The number of items of a shape. -/
def itemCount (shape : List Nat) : Nat := shape.foldr (· * ·) 1

variable (b : Buffer)

def shape : List Nat := b.axes.map Axis.extent

/-- The number of bytes of the items. -/
def byteSize : Nat := b.itemSize * itemCount b.shape

/-- Axes whose items follow each other without gaps, the last axis the fastest. -/
def dense (itemSize : Nat) : List Axis → Bool
  | [] => true
  | axis :: rest =>
      dense itemSize rest &&
        (axis.extent ≤ 1 ||
          axis.stride == (itemSize * itemCount (rest.map Axis.extent) : Nat))

/-- Whether the items lie in memory in row-major order and without gaps. A single axis counts by its
stride even if it is empty; several axes always do if one of them is empty. -/
def isContiguous : Bool :=
  match b.axes with
  | [] => true
  | [axis] => axis.extent == 1 || axis.stride == b.itemSize
  | axes => b.byteSize == 0 || dense b.itemSize axes

/-- Whether one of several axes is empty. -/
def hasEmptyAxis : Bool := b.axes.length ≠ 1 && b.shape.contains 0

/-- The addresses of the items in row-major order. -/
def itemAddresses (start : Int) : List Axis → List Int
  | [] => [start]
  | axis :: rest => (List.range axis.extent).flatMap fun (i : Nat) =>
      itemAddresses (start + i * axis.stride) rest

/-- The addresses of the bytes of the items in row-major order. A buffer without bytes has none,
however long its axes are. -/
def byteAddresses : List Nat :=
  if b.byteSize = 0 then []
  else (itemAddresses b.start b.axes).flatMap fun address =>
    (List.range b.itemSize).map (address.toNat + ·)

theorem length_itemAddresses (start : Int) (axes : List Axis) :
    (itemAddresses start axes).length = itemCount (axes.map Axis.extent) := by
  induction axes generalizing start with
  | nil => rfl
  | cons axis rest ih =>
      rw [itemAddresses, List.length_flatMap, List.map_cons, itemCount, List.foldr_cons]
      simp only [ih, List.map_const', List.sum_replicate_nat, List.length_range]
      rfl

/-- The addresses go item by item also where there are none. -/
theorem byteAddresses_eq :
    b.byteAddresses = (itemAddresses b.start b.axes).flatMap fun address =>
      (List.range b.itemSize).map (address.toNat + ·) := by
  unfold byteAddresses
  split
  next h =>
    rcases Nat.mul_eq_zero.1 h with hsize | hcount
    · simp [hsize]
    · have hnone := length_itemAddresses b.start b.axes
      rw [← shape, hcount] at hnone
      rw [List.eq_nil_of_length_eq_zero hnone, List.flatMap_nil]
  next => rfl

/-- The bytes of the items in row-major order. -/
def contents (m : Memory) : List UInt8 := b.byteAddresses.map m.read

/-- Memory with the items of the buffer replaced, in row-major order. -/
def fill (m : Memory) (bytes : List UInt8) : Memory :=
  (b.byteAddresses.zip bytes).foldl (fun m (address, byte) => m.write address byte) m

/-- The greatest number of axes. -/
def axisLimit : Nat := 64

/-- The greatest number of bytes of a grid, which is a machine integer. -/
def byteLimit : Nat := 0x7FFFFFFFFFFFFFFF

/-- The shape of a grid of `count` items whose extents are asked for. One negative extent stands for
as many as the others leave over, of which none is zero then. The axes that are not empty must not
call for too many bytes together, even if another axis is empty. -/
def shape? (itemSize count : Nat) (extents : List Int) : Option (List Nat) :=
  let known := itemCount ((extents.filter (0 ≤ ·)).map Int.toNat)
  let unknown := extents.countP (· < 0)
  let shape := extents.map fun extent => if extent < 0 then count / known else extent.toNat
  if extents.length ≤ axisLimit ∧ (unknown = 0 ∨ unknown = 1 ∧ known ≠ 0) ∧
      itemCount shape = count ∧ itemSize * itemCount (shape.filter (· ≠ 0)) ≤ byteLimit then
    some shape
  else none

/-- The axes of a grid in row-major order. -/
def rowMajorAxes (itemSize : Nat) : List Nat → List Axis
  | [] => []
  | extent :: rest =>
      { extent, stride := (itemSize * itemCount rest : Nat) } :: rowMajorAxes itemSize rest

/-- The axes of a grid in column-major order, where an item is `step` bytes from the next. -/
def columnMajorAxes (step : Nat) : List Nat → List Axis
  | [] => []
  | extent :: rest => { extent, stride := step } :: columnMajorAxes (step * extent) rest

/-- The bounds of a slice of `size` items by steps of `step`: its first position and its length.
Missing bounds are the ends, negative ones count from the end, and all are cut to the items. -/
def sliceBounds (size : Nat) (start stop : Option Int) (step : Int) : Int × Nat :=
  let lowest : Int := if step < 0 then -1 else 0
  let highest : Int := if step < 0 then size - 1 else size
  let place (bound : Int) : Int :=
    if bound < 0 then max (bound + size) lowest else min bound highest
  let first := (start.map place).getD (if step < 0 then highest else lowest)
  let last := (stop.map place).getD (if step < 0 then lowest else highest)
  let length :=
    if step < 0 then (first - last - step - 1) / (-step) else (last - first + step - 1) / step
  (first, length.toNat)

/-- The distance between items that were `stride` apart and are taken by steps of `step`. Steps are
cut to the greatest machine integer in size, and strides are machine integers that wrap around. Only
a slice of at most one item can have a stride that did so. -/
def scaleStride (stride step : Int) : Int :=
  let cut := max (-0x7FFFFFFFFFFFFFFF) (min step 0x7FFFFFFFFFFFFFFF)
  Int.bmod (stride * cut) 0x10000000000000000

/-- Why there is no slice of a buffer. -/
inductive SliceError where
  | noAxis
  | noStep
deriving DecidableEq, Repr

/-- The items of the first axis from `start` to `stop` by steps of `step`, on the same memory. -/
def slice (start stop : Option Int) (step : Int) : Except SliceError Buffer :=
  match b.axes with
  | [] => .error .noAxis
  | axis :: rest =>
      if step = 0 then .error .noStep
      else
        let (first, length) := sliceBounds axis.extent start stop step
        let start := if length = 0 then b.start else ((b.start : Int) + first * axis.stride).toNat
        let first := { extent := length, stride := scaleStride axis.stride step }
        .ok { b with start, axes := first :: rest }

end Buffer

end HalfPrecision
