import HalfPrecision.Batch.Guarded
import Mathlib.Logic.Function.Basic
import Mathlib.Logic.Relation

/-!
# Interleaved calls

A call makes its checks and then advances by single reads and writes of words. Several calls may be
under way at the same time on one memory, their steps mixed in any order. A call whose access fails
ends there.
-/

namespace HalfPrecision

structure Call where
  routine : Routine
  target : Operand
  source : Operand
  count : Int

namespace Interleaving

/-- Where a loop stands within the element of one index. -/
inductive Stage where
  | next (i : Nat)
  /-- The high word of a double has been read. -/
  | halfRead (i high : Nat)
  /-- The element has been read and converted. -/
  | converted (i pattern : Nat)
  /-- The high word of a double has been written. -/
  | halfWritten (i pattern : Nat)

inductive Progress where
  | called
  | looping (out src : Words) (stage : Stage)
  | returned (answer : Except CallError Bool)

/-- How far a call has come whose last action may have failed. -/
def Progress.after : Except CallError Progress → Progress
  | .ok next => next
  | .error e => .returned (.error e)

/-- Read or write one word, unless the last element is done. -/
def loopAction? (r : Routine) (p : Platform) (count : Nat) (out src : Words) :
    Stage → Option (Guarded Stage)
  | .next i =>
      if i < count then
        match r.source with
        | .half | .single => some do
            let pattern ← src.fetch i
            return .converted i (r.convert pattern)
        | .double => some do
            let high ← src.fetch (2 * i + p.highWord : Nat)
            return .halfRead i high
      else none
  | .halfRead i high => some do
      let low ← src.fetch (2 * i + p.lowWord : Nat)
      return .converted i (r.convert (high * Element.wordBase + low))
  | .converted i pattern =>
      match r.target with
      | .half | .single => some do
          out.assign i pattern
          return .next (i + 1)
      | .double => some do
          out.assign (2 * i + p.highWord : Nat) (pattern / Element.wordBase : Nat)
          return .halfWritten i pattern
  | .halfWritten i pattern => some do
      out.assign (2 * i + p.lowWord : Nat) (pattern % Element.wordBase : Nat)
      return .next (i + 1)

end Interleaving

open Interleaving

namespace Call

variable (c : Call) (p : Platform)

def checkAction : Guarded Progress := do
  match c.routine.prepare p c.target c.source c.count with
  | .error e => throw (.refused e)
  | .ok (.answered done) => return .returned (.ok done)
  | .ok (.rows out src) => return .looping out src (.next 0)

/-- What a call does next, unless it has returned. -/
def action? : Progress → Option (Guarded Progress)
  | .called => some (c.checkAction p)
  | .looping out src stage =>
      match loopAction? c.routine p c.count.toNat out src stage with
      | some action => some do
          let stage ← action
          return .looping out src stage
      | none => some (return .returned (.ok true))
  | .returned _ => none

def advance (progress : Progress) (m : Memory) : Option (Progress × Memory) :=
  (c.action? p progress).map fun action => (.after (action.run m).1, (action.run m).2)

/-- The effect of a call that nothing disturbs. -/
def run (m : Memory) : Except BufferError (Bool × Memory) :=
  c.routine.call p c.target c.source c.count m

/-- The effect of calls one after the other, with their answers. -/
def runAll : List Call → Memory → Except BufferError (List Bool × Memory)
  | [], m => return ([], m)
  | c :: rest, m => do
      let (done, m) ← c.run p m
      let (answers, m) ← runAll rest m
      return (done :: answers, m)

end Call

namespace Interleaving

structure State (Index : Type) where
  memory : Memory
  progress : Index → Progress

variable {Index : Type} [DecidableEq Index]

/-- All calls before their first step. -/
def State.start (m : Memory) : State Index := { memory := m, progress := fun _ => .called }

inductive Step (p : Platform) (calls : Index → Call) : State Index → State Index → Prop where
  | advance (s : State Index) (i : Index) (next : Progress) (m : Memory)
      (moved : (calls i).advance p (s.progress i) s.memory = some (next, m)) :
      Step p calls s { memory := m, progress := Function.update s.progress i next }

def Runs (p : Platform) (calls : Index → Call) : State Index → State Index → Prop :=
  Relation.ReflTransGen (Step p calls)

end Interleaving

end HalfPrecision
