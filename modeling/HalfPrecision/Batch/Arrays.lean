import HalfPrecision.Batch
import HalfPrecision.Conversion
import HalfPrecision.Grid
import HalfPrecision.Platform

/-!
# Conversion of arrays

Whole arrays are converted cell by cell into arrays of the same shape. The cells lie in memory one
after the other, the low word of a double first, and go through a batch. Numbers come as doubles;
where singles are wanted, each is rounded to the nearest one. Patterns of halves come as integers,
which must be in range unless they come from an array whose axes are reversed. Such an array holds
machine integers, with a sign or without, or doubles if its integers are of both kinds; its cells
are cut to halves.
-/

namespace HalfPrecision

inductive ArrayError where
  | ragged
  | doesNotFit
  | unavailable
  | probeFailed (failure : ProbeFailure)
deriving DecidableEq, Repr

namespace Arrays

/-- Memory with patterns of `size` bytes from an address on. -/
def place (size : Nat) (m : Memory) : Nat → List Nat → Memory
  | _, [] => m
  | address, pattern :: rest => place size (m.writeWord size address pattern) (address + size) rest

/-- The patterns that a routine makes of a list of patterns. -/
def convertCells (r : Routine) (p : Platform) (cells : List Nat) : List Nat :=
  let count := cells.length
  let targetStart := count * r.source.size
  let empty : Memory := ⟨Array.replicate (targetStart + count * r.target.size) 0⟩
  let converted := r.convertAll p targetStart 0 count (place r.source.size empty 0 cells)
  (List.range count).map fun i =>
    converted.readWord r.target.size (targetStart + i * r.target.size)

/-- What is logged of a conversion. -/
def logRecord (r : Routine) (count : Nat) : Log.Record where
  level := .debug
  source := .arrays
  message := r.label ++ s!" converted {count} values"

/-- Convert a grid of patterns. -/
def convert (r : Routine) (cell : ProbeCell) (g : Grid Nat) :
    Probed (Except ArrayError (Grid Nat)) :=
  let probed := cell.get
  match probed.answer with
  | .error failure => { probed with answer := .error (.probeFailed failure) }
  | .ok p =>
      if p.ieee754 then
        { probed with
          answer := .ok { g with cells := convertCells r p g.cells }
          log := probed.log ++ [logRecord r g.cells.length] }
      else { probed with answer := .error .unavailable }

/-- The grid of a nested list, with its axes reversed if that is asked for. -/
def gridOf {α : Type} (reversed : Bool) (v : Nested α) : Except ArrayError (Grid α) :=
  match v.toGrid? with
  | none => .error .ragged
  | some g => .ok (if reversed then g.reverseAxes else g).withAxis

/-- What an array keeps integers in. -/
inductive IntegerKind where
  /-- Integers of 64 bits with a sign. -/
  | signed
  /-- Integers of 64 bits without a sign. -/
  | unsigned
  /-- Doubles, for integers some of which need a sign and others its bit. -/
  | double
deriving DecidableEq, Repr

/-- Whether an integer of 64 bits holds it with a sign. -/
def isSigned (n : Int) : Bool := -0x8000000000000000 ≤ n && n < 0x8000000000000000

/-- Whether an integer of 64 bits holds it only without a sign. -/
def isUnsigned (n : Int) : Bool := 0x8000000000000000 ≤ n && n < 0x10000000000000000

/-- What an array keeps the given integers in, if it can. -/
def IntegerKind.of? (cells : List Int) : Option IntegerKind :=
  if cells.all isSigned then some .signed
  else if cells.all isUnsigned then some .unsigned
  else if cells.all fun n => isSigned n || isUnsigned n then some .double
  else none

/-- The half that an integer in an array is cut to. A double is taken to 32 bits first, and beyond
them it is lost. -/
def IntegerKind.cut (kind : IntegerKind) (n : Int) : Nat :=
  match kind with
  | signed | unsigned => Layout.half.wrap n
  | double => if -0x80000000 ≤ n ∧ n < 0x80000000 then Layout.half.wrap n else 0

/-- The halves in integers that do not stand in an array yet. -/
def halfCells (cells : List Int) : Except ArrayError (List Nat) :=
  if cells.all fun n => Layout.half.Fits n then .ok (cells.map Int.toNat) else .error .doesNotFit

/-- The halves that the integers of an array are cut to. -/
def cutCells (cells : List Int) : Except ArrayError (List Nat) :=
  match IntegerKind.of? cells with
  | some kind => .ok (cells.map kind.cut)
  | none => .error .doesNotFit

/-- The grid of halves in a nested list of integers. -/
def halfGrid (reversed : Bool) (v : Nested Int) : Except ArrayError (Grid Nat) := do
  let g ← gridOf reversed v
  return { shape := g.shape, cells := ← if reversed then cutCells g.cells else halfCells g.cells }

/-- Convert a grid unless it could not be made; then nothing is probed. -/
def convertIfOk (r : Routine) (cell : ProbeCell) (g : Except ArrayError (Grid Nat)) :
    Probed (Except ArrayError (Grid Nat)) :=
  match g with
  | .ok g => convert r cell g
  | .error e => { answer := .error e, cell }

variable (cell : ProbeCell) (reversed : Bool)

/-- The halves nearest to the singles nearest to doubles. -/
def singlesToHalves (v : Nested Nat) : Probed (Except ArrayError (Grid Nat)) :=
  convertIfOk .singlesToHalves cell <| (gridOf reversed v).map fun g =>
    g.map fun (pattern : Nat) => Layout.double.convertToEven .single pattern

/-- The halves nearest to doubles. -/
def doublesToHalves (v : Nested Nat) : Probed (Except ArrayError (Grid Nat)) :=
  convertIfOk .doublesToHalves cell (gridOf reversed v)

/-- The singles equal to halves. -/
def halvesToSingles (v : Nested Int) : Probed (Except ArrayError (Grid Nat)) :=
  convertIfOk .halvesToSingles cell (halfGrid reversed v)

/-- The doubles equal to halves. -/
def halvesToDoubles (v : Nested Int) : Probed (Except ArrayError (Grid Nat)) :=
  convertIfOk .halvesToDoubles cell (halfGrid reversed v)

end Arrays

end HalfPrecision
