import HalfPrecision.Capacity
import HalfPrecision.Memory.Buffer

/-!
# Words of a buffer

A buffer given by a caller is seen as a row of words on the same memory. It must be a buffer whose
bytes follow each other, writable if it is to be written, and long enough. Words are then read and
assigned one by one.
-/

namespace HalfPrecision

/-- What a caller may give for a buffer. Objects that are buffers but refuse to be looked at, such as
released ones, are left out. -/
inductive Operand where
  | absent
  /-- An object that is no buffer, by the name of its type. -/
  | foreign (typeName : String)
  | buffer (b : Buffer)
deriving DecidableEq, Repr

/-- Why a buffer cannot be taken for a row of bytes. -/
inductive LayoutFault where
  | notBytes (typeName : String)
  | gaps
  | emptyAxis
deriving DecidableEq, Repr

def LayoutFault.message : LayoutFault → String
  | notBytes typeName => "memoryview: a bytes-like object is required, not '" ++ typeName ++ "'"
  | gaps => "memoryview: casts are restricted to C-contiguous views"
  | emptyAxis => "memoryview: cannot cast view with zeros in shape or strides"

/-- Why an operand has no words; `name` is what the caller calls it. -/
inductive BufferError where
  | negativeCount (count : Int)
  | notContiguous (name : String) (fault : LayoutFault)
  | readOnly (name : String)
  | tooShort (name : String) (held needed : Nat) (count : Nat)
deriving DecidableEq, Repr

/-- What there is to say of an error, if its numbers can be written out. -/
def BufferError.message (capacity : Capacity) : BufferError → Except DigitsExceeded String
  | negativeCount count => do
      return "Element count must be non-negative, got " ++ (← capacity.decimal count)
  | notContiguous name fault =>
      return name ++ " must be a C-contiguous buffer: " ++ fault.message
  | readOnly name => return name ++ " is read-only"
  | tooShort name held needed count => do
      let held ← capacity.decimal held
      let needed ← capacity.decimal needed
      let count ← capacity.decimal count
      return s!"{name} holds {held} bytes, need {needed} for {count} elements"

/-- A row of words in memory. -/
structure Words where
  start : Nat
  wordSize : Nat
  count : Nat
  writable : Bool
deriving DecidableEq, Repr

namespace Operand

/-- The buffer of an operand, if its bytes can be taken in a row, whatever its items are. -/
def contiguous? : Operand → Except LayoutFault Buffer
  | absent => .error (.notBytes "NoneType")
  | foreign typeName => .error (.notBytes typeName)
  | buffer b =>
      if !b.isContiguous then .error .gaps
      else if b.hasEmptyAxis then .error .emptyAxis
      else .ok b

/-- The first `count` words of an operand, or nothing if it is absent. No words are always writable,
wherever they are taken from. -/
def words (operand : Operand) (wordSize : Nat) (count : Int) (write : Bool) (name : String) :
    Except BufferError (Option Words) :=
  if operand = absent then .ok none
  else if count < 0 then .error (.negativeCount count)
  else
    match operand.contiguous? with
    | .error fault => .error (.notContiguous name fault)
    | .ok b =>
        let needed := count.toNat * wordSize
        if write && !b.writable then .error (.readOnly name)
        else if b.byteSize < needed then .error (.tooShort name b.byteSize needed count.toNat)
        else .ok <| some
          { start := b.start
            wordSize
            count := count.toNat
            writable := b.writable || count = 0 }

end Operand

/-- Why a word cannot be assigned. -/
inductive AssignError where
  /-- There are no words to assign to. -/
  | absent
  | readOnly
  | noSuchIndex
  /-- An index that only an unsigned machine integer holds. -/
  | unsignedIndex
  | doesNotFit
deriving DecidableEq, Repr

namespace Words

variable (w : Words)

def address (i : Nat) : Nat := w.start + i * w.wordSize

def get (m : Memory) (i : Nat) : Nat := m.readWord w.wordSize (w.address i)

def toList (m : Memory) : List Nat := (List.range w.count).map (w.get m)

/-- The place of an index; a negative one counts from the end. -/
def place? (index : Int) : Option Nat :=
  let i := if index < 0 then index + w.count else index
  if 0 ≤ i ∧ i < w.count then some i.toNat else none

/-- Whether an index is a machine integer only if that has no sign. -/
def isUnsignedIndex (index : Int) : Bool :=
  0x8000000000000000 ≤ index && index < 0x10000000000000000

/-- Memory with a word assigned. -/
def set (m : Memory) (index value : Int) : Except AssignError Memory :=
  if !w.writable then .error .readOnly
  else
    match w.place? index with
    | none => .error (if isUnsignedIndex index then .unsignedIndex else .noSuchIndex)
    | some i =>
        if 0 ≤ value ∧ value < (256 ^ w.wordSize : Nat) then
          .ok (m.writeWord w.wordSize (w.address i) value.toNat)
        else .error .doesNotFit

/-- Assignments one after the other, up to the first that fails; those before it stay. -/
def setAll (m : Memory) : List (Int × Int) → Except AssignError Unit × Memory
  | [] => (.ok (), m)
  | (index, value) :: rest =>
      match w.set m index value with
      | .ok m' => setAll m' rest
      | .error e => (.error e, m)

/-- Assignments to words that may be absent. -/
def setAll? (words : Option Words) (m : Memory) (assignments : List (Int × Int)) :
    Except AssignError Unit × Memory :=
  match words with
  | some w => w.setAll m assignments
  | none => (if assignments.isEmpty then .ok () else .error .absent, m)

end Words

end HalfPrecision
