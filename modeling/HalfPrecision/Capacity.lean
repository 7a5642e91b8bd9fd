import HalfPrecision.Basic

/-!
# What integers and texts can hold

Integers grow with their values, but not without end: they are kept in pieces of thirty bits, the
number of pieces is limited, and so is the memory for them. Moving an integer up by very many places
therefore fails. Zero has no pieces and can be moved by any number of places. Texts are not filled
up to any width either, and an integer may have more digits than are written out.
-/

namespace HalfPrecision

/-- Why an integer or a text cannot be made. -/
inductive CapacityError where
  /-- An integer would have too many pieces. -/
  | tooLong
  | outOfMemory
  /-- A text is to be filled up to a width that is not a machine integer. -/
  | tooWide
deriving DecidableEq, Repr

/-- What a machine has room for. -/
structure Capacity where
  /-- The bits of the memory for an integer or a text. -/
  memoryBits : Nat
  /-- How many decimal digits of an integer are written out, if not all are. -/
  digitLimit : Option Nat := none
  /-- So an integer that lies in memory does not have too many pieces. -/
  memoryBits_le : memoryBits ≤ 0x10000000000000000 := by decide

/-- An integer has more decimal digits than are written out. -/
structure DigitsExceeded where
  limit : Nat
deriving DecidableEq, Repr

def DigitsExceeded.message (e : DigitsExceeded) : String :=
  s!"Exceeds the limit ({e.limit} digits) for integer string conversion; " ++
    "use sys.set_int_max_str_digits() to increase the limit"

namespace Capacity

def pieceBits : Nat := 30

/-- The greatest number of pieces of an integer. -/
def pieceLimit : Nat := 0x1FFFFFFFFFFFFFF9

/-- A machine with 32 gibibytes that writes out integers of any length. -/
def workstation : Capacity := { memoryBits := 0x4000000000 }

/-- The greatest machine integer, which is the greatest width of a text. -/
def widthLimit : Nat := 0x7FFFFFFFFFFFFFFF

/-- The number of pieces of a positive number. -/
def pieces (n : Nat) : Nat := n.log2 / pieceBits + 1

variable (capacity : Capacity)

/-- Whether an integer can be moved up by `places`. -/
def checkShift (n : Int) (places : Nat) : Except CapacityError Unit :=
  if n = 0 then .ok ()
  else if pieces n.natAbs + (places + pieceBits - 1) / pieceBits > pieceLimit then .error .tooLong
  else if places > capacity.memoryBits then .error .outOfMemory
  else .ok ()

/-- An integer moved up by `places`. -/
def shift (n : Int) (places : Nat) : Except CapacityError Int :=
  if n = 0 then .ok 0
  else (capacity.checkShift n places).map fun _ => n * (2 ^ places : Nat)

/-- Whether a text of ASCII characters can be filled up to a width. -/
def checkWidth (width : Nat) : Except CapacityError Unit :=
  if width > widthLimit then .error .tooWide
  else if 8 * width > capacity.memoryBits then .error .outOfMemory
  else .ok ()

/-- An integer in decimal digits. -/
def decimal (n : Int) : Except DigitsExceeded String :=
  match capacity.digitLimit with
  | none => .ok (toString n)
  | some limit => if n.natAbs < 10 ^ limit then .ok (toString n) else .error { limit }

variable {capacity}

/-- A moved integer is multiplied by a power of two. -/
theorem eq_of_shift_eq_ok {n moved : Int} {places : Nat}
    (h : capacity.shift n places = .ok moved) : moved = n * (2 ^ places : Nat) := by
  rw [shift] at h
  split at h
  next hn => rw [hn, Int.zero_mul]; exact (Except.ok.inj h).symm
  next =>
    cases hc : capacity.checkShift n places with
    | ok _ => rw [hc] at h; exact (Except.ok.inj h).symm
    | error e => rw [hc] at h; cases h

end Capacity

end HalfPrecision
