import HalfPrecision.Log

/-!
# The machine's doubles

Whether the machine keeps doubles as IEEE 754 prescribes, and which of the two 32-bit words of a
double holds sign and exponent. Both are seen from the words of the number one.

A cell holds a probe of the platform. The first reading that finds the cell empty calls the probe;
its answer is kept and logged, and later readings return it without a call. A call that fails leaves
the cell empty, so the next reading calls again.
-/

namespace HalfPrecision

structure Platform where
  ieee754 : Bool
  /-- The index of the word that holds sign and exponent: one if the low word comes first. -/
  highWord : Fin 2
deriving DecidableEq, Repr

namespace Platform

/-- The index of the other word. -/
def lowWord (p : Platform) : Fin 2 := 1 - p.highWord

/-- The high word of the number one as a double. -/
def oneHighWord : Nat := 0x3FF00000

/-- What the two words of the number one tell, in the order in which they lie in memory. -/
def ofWords (first second : Nat) : Platform :=
  if first = 0 then { ieee754 := second = oneHighWord, highWord := 1 }
  else { ieee754 := first = oneHighWord && second = 0, highWord := 0 }

/-- The machine that the library runs on, which keeps the low word first. -/
def native : Platform := ofWords 0 oneHighWord

/-- What callers are told where conversions are not available. -/
def unavailableMessage : String :=
  "Native floating point is not IEEE-754; half conversion unavailable"

end Platform

/-! ## A probe that is run once -/

/-- A probe that failed, with what it said. -/
structure ProbeFailure where
  text : String
deriving DecidableEq, Repr

/-- What a probe does when it is called for the `n`-th time, counted from zero. -/
abbrev Probe := Nat → Except ProbeFailure Platform

structure ProbeCell where
  probe : Probe
  calls : Nat := 0
  result : Option Platform := none

namespace ProbeCell

/-- A cell whose probe always finds the same platform. -/
def ofPlatform (p : Platform) : ProbeCell := { probe := fun _ => .ok p }

/-- What is logged when a platform is kept. -/
def logRecord (p : Platform) : Log.Record :=
  if p.ieee754 then
    { level := .debug
      source := .platform
      message := s!"Native double is IEEE-754, high word index {p.highWord}" }
  else
    { level := .error
      source := .platform
      message := "Native double is not IEEE-754 binary64; conversions are disabled" }

end ProbeCell

/-- What came of an action on a cell: an answer, the cell after it, and what was logged. -/
structure Probed (α : Type) where
  answer : α
  cell : ProbeCell
  log : List Log.Record := []

namespace ProbeCell

variable (cell : ProbeCell)

/-- Read the platform, calling the probe if the cell is empty. -/
def get : Probed (Except ProbeFailure Platform) :=
  match cell.result with
  | some p => { answer := .ok p, cell }
  | none =>
      let called := { cell with calls := cell.calls + 1 }
      match cell.probe cell.calls with
      | .ok p => { answer := .ok p, cell := { called with result := some p }, log := [logRecord p] }
      | .error failure => { answer := .error failure, cell := called }

/-- Several readings, one after the other. -/
def getMany : Nat → Probed (List (Except ProbeFailure Platform))
  | 0 => { answer := [], cell }
  | n + 1 =>
      let earlier := getMany n
      let last := earlier.cell.get
      { answer := earlier.answer ++ [last.answer]
        cell := last.cell
        log := earlier.log ++ last.log }

/-- The platforms that several readings find. A reading that fails finds none. -/
def findMany (n : Nat) : Probed (List Platform) :=
  let readings := cell.getMany n
  { readings with answer := readings.answer.filterMap Except.toOption }

end ProbeCell

end HalfPrecision
