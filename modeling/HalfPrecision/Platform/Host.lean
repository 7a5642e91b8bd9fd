import HalfPrecision.Batch.Guarded

/-!
# Programs that use a cell

A program has memory, a cell in use and a log. It asks for the platform, for its flag, or for a
conversion between buffers. A conversion reads the flag first; if there are doubles to be converted
it then reads the platform once more, for the order of their words. A request that fails leaves what
it has done up to then.

A session has a cell of its own beside the one in use, until its own is put to use.
-/

namespace HalfPrecision

structure Host where
  cell : ProbeCell
  memory : Memory
  log : List Log.Record := []

/-- Why a request has no answer. -/
inductive HostError where
  | probeFailed (failure : ProbeFailure)
  | call (error : CallError)
deriving DecidableEq, Repr

/-- An action on all that a program has. -/
abbrev Hosted := ExceptT HostError (StateM Host)

namespace Hosted

variable {α : Type}

/-- What comes of an action, and the program after it, also if it fails. -/
def run (action : Hosted α) (host : Host) : Except HostError α × Host :=
  StateT.run (ExceptT.run action) host

/-- Read the platform from the cell in use. -/
def platform : Hosted Platform :=
  ExceptT.mk fun host =>
    let probed := host.cell.get
    (probed.answer.mapError .probeFailed,
      { host with cell := probed.cell, log := host.log ++ probed.log })

/-- An action on memory alone. -/
def onMemory (action : Guarded α) : Hosted α :=
  ExceptT.mk fun host =>
    let (answer, memory) := action.run host.memory
    (answer.mapError .call, { host with memory })

end Hosted

namespace Routine

variable (r : Routine)

/-- Whether the elements of one side are doubles. -/
def handlesDoubles : Bool := r.source = .double || r.target = .double

/-- The platform by which the words of an element are ordered. Where there are no doubles it is not
read again. -/
def wordOrder (p : Platform) : Hosted Platform :=
  if r.handlesDoubles then Hosted.platform else pure p

/-- Convert `count` elements by what the cell in use finds. -/
def hostedCall (target source : Operand) (count : Int) : Hosted Bool := do
  let p ← Hosted.platform
  if !p.ieee754 then return false
  if source = .absent || target = .absent then return true
  let order ← r.wordOrder p
  Hosted.onMemory (r.guardedCall { p with highWord := order.highWord } target source count)

end Routine

/-- What a program asks for. -/
inductive Query where
  /-- The platform, from the cell itself or by the function in front of it. -/
  | platform
  | ieee754
  | convert (r : Routine) (target source : Operand) (count : Int)
deriving DecidableEq, Repr

inductive Reply where
  | platform (p : Platform)
  | ieee754 (flag : Bool)
  /-- Whether a conversion took place. -/
  | converted (done : Bool)
deriving DecidableEq, Repr

def Query.answer : Query → Hosted Reply
  | platform => return .platform (← Hosted.platform)
  | ieee754 => return .ieee754 (← Hosted.platform).ieee754
  | convert r target source count => return .converted (← r.hostedCall target source count)

namespace Host

/-- Ask for something. -/
def ask (host : Host) (query : Query) : Except HostError Reply × Host := query.answer.run host

/-- A program after it has asked for some things, whatever came of them. -/
def after (host : Host) (queries : List Query) : Host :=
  queries.foldl (fun host query => (host.ask query).2) host

end Host

/-- A probe that does what a list says, and fails when that is at its end. -/
def Probe.ofScript (script : List (Except ProbeFailure Platform)) : Probe :=
  fun n => script.getD n (.error ⟨"script exhausted"⟩)

/-- A program whose cell holds a probe that was not called yet. -/
def Host.ofScript (script : List (Except ProbeFailure Platform)) (memory : Memory) : Host where
  cell := { probe := .ofScript script }
  memory

/-! ## Sessions -/

/-- Put a query to a cell, for a program with some memory. -/
def ProbeCell.ask (cell : ProbeCell) (memory : Memory) (query : Query) :
    Probed (Except HostError Reply × Memory) :=
  let (answer, host) := Host.ask { cell, memory } query
  { answer := (answer, host.memory), cell := host.cell, log := host.log }

/-- A cell of one's own, and the cell in use if that is another one. -/
structure Session where
  own : ProbeCell
  other : Option ProbeCell

namespace Session

variable (s : Session)

/-- Put one's own cell to use. -/
def install : Session := { s with other := none }

/-- An action on one's own cell. -/
def onOwn {α : Type} (action : ProbeCell → Probed α) : α × Session × List Log.Record :=
  let probed := action s.own
  (probed.answer, { s with own := probed.cell }, probed.log)

/-- An action on the cell in use. -/
def onUsed {α : Type} (action : ProbeCell → Probed α) : α × Session × List Log.Record :=
  match s.other with
  | none => s.onOwn action
  | some cell =>
      let probed := action cell
      (probed.answer, { s with other := some probed.cell }, probed.log)

end Session

end HalfPrecision
