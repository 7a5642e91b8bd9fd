import HalfPrecision.Conversion
import HalfPrecision.Memory.Words
import HalfPrecision.Platform

/-!
# Batch conversion

A batch converts a number of elements from a source buffer to a target buffer. Both are checked
before anything is written. Then the elements are read, converted and written one at a time, in the
order of their indexes, so buffers that share memory are well defined too. A double is two words,
whose order depends on the platform.
-/

namespace HalfPrecision

/-- The kinds of elements in buffers. -/
inductive Element where
  | half
  | single
  | double
deriving DecidableEq, Repr

namespace Element

/-- The bytes of the words that an element is made of. -/
def wordSize : Element → Nat
  | half => 2
  | single => 4
  | double => 4

/-- The words that an element is made of. -/
def wordCount : Element → Nat
  | half => 1
  | single => 1
  | double => 2

/-- The bytes of an element. -/
def size (e : Element) : Nat := e.wordSize * e.wordCount

/-- What the high word of a double counts in units of the low one. -/
def wordBase : Nat := 0x100000000

/-- The pattern of an element in memory. -/
def load (p : Platform) (m : Memory) (address : Nat) : Element → Nat
  | half => m.readWord 2 address
  | single => m.readWord 4 address
  | double =>
      let high := m.readWord 4 (address + 4 * p.highWord)
      let low := m.readWord 4 (address + 4 * p.lowWord)
      high * wordBase + low

/-- Memory with the pattern of an element, the high word of a double written first. -/
def store (p : Platform) (m : Memory) (address pattern : Nat) : Element → Memory
  | half => m.writeWord 2 address pattern
  | single => m.writeWord 4 address pattern
  | double =>
      (m.writeWord 4 (address + 4 * p.highWord) (pattern / wordBase)).writeWord 4
        (address + 4 * p.lowWord) (pattern % wordBase)

end Element

/-- The conversions that work on buffers. -/
inductive Routine where
  | singlesToHalves
  | doublesToHalves
  | halvesToSingles
  | halvesToDoubles
deriving DecidableEq, Repr

namespace Routine

def label : Routine → String
  | singlesToHalves => "singles2halfp"
  | doublesToHalves => "doubles2halfp"
  | halvesToSingles => "halfp2singles"
  | halvesToDoubles => "halfp2doubles"

def source : Routine → Element
  | singlesToHalves => .single
  | doublesToHalves => .double
  | halvesToSingles => .half
  | halvesToDoubles => .half

def target : Routine → Element
  | singlesToHalves => .half
  | doublesToHalves => .half
  | halvesToSingles => .single
  | halvesToDoubles => .double

/-- The conversion of one pattern. -/
def convert : Routine → Nat → Nat
  | singlesToHalves, bits => halfOfSingle bits
  | doublesToHalves, bits => halfOfDouble bits
  | halvesToSingles, bits => singleOfHalf bits
  | halvesToDoubles, bits => doubleOfHalf bits

variable (r : Routine) (p : Platform)

/-- Convert the element of one index between two places in memory. -/
def convertAt (targetStart sourceStart : Nat) (m : Memory) (i : Nat) : Memory :=
  let pattern := r.source.load p m (sourceStart + i * r.source.size)
  r.target.store p m (targetStart + i * r.target.size) (r.convert pattern)

/-- Convert the first `count` elements, one after the other. -/
def convertAll (targetStart sourceStart count : Nat) (m : Memory) : Memory :=
  (List.range count).foldl (r.convertAt p targetStart sourceStart) m

/-- The words of `count` elements of an operand. -/
def elements (operand : Operand) (e : Element) (count : Int) (write : Bool) (name : String) :
    Except BufferError (Option Words) :=
  operand.words e.wordSize (e.wordCount * count) write name

/-- Convert `count` elements. The answer is `false`, and nothing is done, if the platform does not
follow IEEE 754; nothing is done either if an operand is absent. -/
def call (target source : Operand) (count : Int) (m : Memory) :
    Except BufferError (Bool × Memory) := do
  if !p.ieee754 then return (false, m)
  if source = .absent || target = .absent then return (true, m)
  let some out ← elements target r.target count true "target" | return (true, m)
  let some src ← elements source r.source count false "source" | return (true, m)
  return (true, r.convertAll p out.start src.start count.toNat m)

end Routine

end HalfPrecision
