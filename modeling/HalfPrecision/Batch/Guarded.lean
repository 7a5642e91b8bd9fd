import HalfPrecision.Batch

/-!
# Batches with guarded accesses

The words of a batch are read and assigned by their indexes, and each access may fail: a row may have
no such word, it may be read-only, or the value may not fit. A failure ends the call; memory stays as
the assignments before it left it.
-/

namespace HalfPrecision

/-- Why a call ends without an answer. -/
inductive CallError where
  | refused (error : BufferError)
  /-- A word is read that its row does not have. -/
  | noSuchWord
  | unassignable (error : AssignError)
deriving DecidableEq, Repr

/-- An action on memory that may fail. -/
abbrev Guarded := ExceptT CallError (StateM Memory)

/-- What comes of an action, and the memory after it, also if it fails. -/
def Guarded.run {α : Type} (action : Guarded α) (m : Memory) : Except CallError α × Memory :=
  StateT.run (ExceptT.run action) m

namespace Words

variable (w : Words)

def fetch (index : Int) : Guarded Nat := do
  match w.place? index with
  | some i => return w.get (← getThe Memory) i
  | none => throw .noSuchWord

def assign (index value : Int) : Guarded Unit := do
  match w.set (← getThe Memory) index value with
  | .ok m => MonadStateOf.set m
  | .error e => throw (.unassignable e)

end Words

namespace Element

def fetch (p : Platform) (w : Words) (i : Nat) : Element → Guarded Nat
  | half => w.fetch i
  | single => w.fetch i
  | double => do
      let high ← w.fetch (2 * i + p.highWord : Nat)
      let low ← w.fetch (2 * i + p.lowWord : Nat)
      return high * wordBase + low

def assign (p : Platform) (w : Words) (i pattern : Nat) : Element → Guarded Unit
  | half => w.assign i pattern
  | single => w.assign i pattern
  | double => do
      w.assign (2 * i + p.highWord : Nat) (pattern / wordBase : Nat)
      w.assign (2 * i + p.lowWord : Nat) (pattern % wordBase : Nat)

end Element

/-- What the checks of a call come to. -/
inductive Prepared where
  /-- There is nothing to convert. -/
  | answered (done : Bool)
  | rows (out src : Words)

namespace Routine

variable (r : Routine) (p : Platform)

/-- Check the platform and both operands. -/
def prepare (target source : Operand) (count : Int) : Except BufferError Prepared := do
  if !p.ieee754 then return .answered false
  if source = .absent || target = .absent then return .answered true
  let some out ← elements target r.target count true "target" | return .answered true
  let some src ← elements source r.source count false "source" | return .answered true
  return .rows out src

def convertElement (out src : Words) (i : Nat) : Guarded Unit := do
  let pattern ← r.source.fetch p src i
  r.target.assign p out i (r.convert pattern)

/-- Convert `count` elements by guarded accesses, once all checks are made. -/
def guardedCall (target source : Operand) (count : Int) : Guarded Bool := do
  match r.prepare p target source count with
  | .error e => throw (.refused e)
  | .ok (.answered done) => return done
  | .ok (.rows out src) =>
      (List.range count.toNat).forM (r.convertElement p out src)
      return true

end Routine

end HalfPrecision
