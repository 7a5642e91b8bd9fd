import HalfPrecision.Platform
import Mathlib.Logic.Function.Basic
import Mathlib.Logic.Relation

/-!
# A cell shared by threads

Several readings of one cell may be under way at the same time, each advancing by single steps in an
order that nothing fixes. A reading looks at the cell first without the lock. If the cell is empty
it takes the lock and looks again, and only if the cell is still empty does it call the probe. What
the probe finds is logged and then kept. The answer is what the cell holds when it is looked at once
more, and the lock is given back last. A probe that fails leaves the cell empty; its failure is the
answer of the reading that made the call.
-/

namespace HalfPrecision.SharedCell

/-- What a reading comes to: what the cell held, or how the call of the probe failed. -/
abbrev Answer := Except ProbeFailure (Option Platform)

/-- How far a reading has come, and what it knows. -/
inductive Stage where
  | started
  /-- The cell was found empty, and the lock is wanted. -/
  | waiting
  /-- The lock is held, and the cell has not been looked at since. -/
  | entered
  /-- The cell was found empty again. -/
  | calling
  | probed (p : Platform)
  | logged (p : Platform)
  /-- The cell is full, and the lock is held. -/
  | filled
  /-- The answer is known, and the lock is still held. -/
  | leaving (answer : Answer)
  /-- The answer is known, and the lock is not held. -/
  | answering (answer : Answer)
  | returned (answer : Answer)

namespace Stage

/-- Whether a reading at this stage is between taking the lock and giving it back. -/
@[simp] def HoldsLock : Stage → Prop
  | entered | calling | probed _ | logged _ | filled | leaving _ => True
  | started | waiting | answering _ | returned _ => False

/-- The answer of a reading, once it is known. -/
@[simp] def answer? : Stage → Option Answer
  | leaving answer | answering answer | returned answer => some answer
  | started | waiting | entered | calling | probed _ | logged _ | filled => none

end Stage

/-- The cell, its lock and its log, the calls made so far, and the stage of every reading. -/
structure State (Reading : Type) where
  result : Option Platform := none
  holder : Option Reading := none
  /-- The readings that called the probe and what it did, in the order of the calls. -/
  calls : List (Reading × Except ProbeFailure Platform) := []
  log : List Log.Record := []
  stage : Reading → Stage := fun _ => .started

variable {Reading : Type} [DecidableEq Reading]

def State.move (s : State Reading) (r : Reading) (stage : Stage) : State Reading :=
  { s with stage := Function.update s.stage r stage }

def State.called (s : State Reading) (r : Reading) (outcome : Except ProbeFailure Platform) :
    State Reading :=
  { s with calls := s.calls ++ [(r, outcome)] }

/-- One step of one reading. The probe may answer or fail as it likes. -/
inductive Step : State Reading → State Reading → Prop where
  | look (s : State Reading) (r : Reading) (at_stage : s.stage r = .started) :
      Step s (s.move r (s.result.elim .waiting fun p => .answering (.ok (some p))))
  | acquire (s : State Reading) (r : Reading) (at_stage : s.stage r = .waiting)
      (free : s.holder = none) :
      Step s ({ s with holder := some r }.move r .entered)
  | lookAgain (s : State Reading) (r : Reading) (at_stage : s.stage r = .entered) :
      Step s (s.move r (s.result.elim .calling fun _ => .filled))
  | succeed (s : State Reading) (r : Reading) (p : Platform) (at_stage : s.stage r = .calling) :
      Step s ((s.called r (.ok p)).move r (.probed p))
  | fail (s : State Reading) (r : Reading) (failure : ProbeFailure)
      (at_stage : s.stage r = .calling) :
      Step s ((s.called r (.error failure)).move r (.leaving (.error failure)))
  | log (s : State Reading) (r : Reading) (p : Platform) (at_stage : s.stage r = .probed p) :
      Step s ({ s with log := s.log ++ [ProbeCell.logRecord p] }.move r (.logged p))
  | store (s : State Reading) (r : Reading) (p : Platform) (at_stage : s.stage r = .logged p) :
      Step s ({ s with result := some p }.move r .filled)
  | take (s : State Reading) (r : Reading) (at_stage : s.stage r = .filled) :
      Step s (s.move r (.leaving (.ok s.result)))
  | release (s : State Reading) (r : Reading) (answer : Answer)
      (at_stage : s.stage r = .leaving answer) :
      Step s ({ s with holder := none }.move r (.answering answer))
  | answer (s : State Reading) (r : Reading) (answer : Answer)
      (at_stage : s.stage r = .answering answer) :
      Step s (s.move r (.returned answer))

def Runs : State Reading → State Reading → Prop := Relation.ReflTransGen Step

def Reachable (s : State Reading) : Prop := Runs {} s

@[simp] theorem move_result (s : State Reading) (r : Reading) (stage : Stage) :
    (s.move r stage).result = s.result := rfl

@[simp] theorem move_holder (s : State Reading) (r : Reading) (stage : Stage) :
    (s.move r stage).holder = s.holder := rfl

@[simp] theorem move_calls (s : State Reading) (r : Reading) (stage : Stage) :
    (s.move r stage).calls = s.calls := rfl

@[simp] theorem move_log (s : State Reading) (r : Reading) (stage : Stage) :
    (s.move r stage).log = s.log := rfl

@[simp] theorem move_stage_self (s : State Reading) (r : Reading) (stage : Stage) :
    (s.move r stage).stage r = stage := by
  simp [State.move]

@[simp] theorem move_stage_of_ne (s : State Reading) {r other : Reading} (h : other ≠ r)
    (stage : Stage) : (s.move r stage).stage other = s.stage other := by
  simp [State.move, h]

end HalfPrecision.SharedCell
