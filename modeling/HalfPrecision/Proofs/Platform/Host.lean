import HalfPrecision.Platform.Host
import HalfPrecision.Proofs.Batch.Confined
import Mathlib.Data.List.Induction

/-!
# Requests of a program

Every request reads the platform first. While the cell is empty that calls the probe, and a probe
that fails ends the request there. Once a platform is kept all readings find it, the second one of a
conversion too, so that the request depends on that platform and on memory alone.
-/

namespace HalfPrecision

namespace Hosted

variable {α β : Type}

theorem run_bind (action : Hosted α) (next : α → Hosted β) (host : Host) :
    (action >>= next).run host = match (action.run host).1 with
      | .ok a => (next a).run (action.run host).2
      | .error e => (.error e, (action.run host).2) := by
  unfold run
  rw [ExceptT.run_bind, StateT.run_bind]
  cases haction : StateT.run (ExceptT.run action) host with
  | mk answer host' => cases answer <;> rfl

theorem run_bind_of_ok {action : Hosted α} {next : α → Hosted β} {host host' : Host} {a : α}
    (h : action.run host = (.ok a, host')) : (action >>= next).run host = (next a).run host' := by
  rw [run_bind, h]

theorem run_bind_of_error {action : Hosted α} {next : α → Hosted β} {host host' : Host}
    {e : HostError} (h : action.run host = (.error e, host')) :
    (action >>= next).run host = (.error e, host') := by
  rw [run_bind, h]

theorem run_platform (host : Host) :
    platform.run host = (host.cell.get.answer.mapError .probeFailed,
      { host with cell := host.cell.get.cell, log := host.log ++ host.cell.get.log }) := rfl

theorem run_onMemory (action : Guarded α) (host : Host) :
    (onMemory action).run host = ((action.run host.memory).1.mapError .call,
      { host with memory := (action.run host.memory).2 }) := rfl

end Hosted

namespace Host

variable (host : Host)

/-- A program whose probe was called and failed. -/
def missed : Host := { host with cell := { host.cell with calls := host.cell.calls + 1 } }

/-- A program whose probe was called and found a platform. -/
def found (p : Platform) : Host where
  cell := { host.cell with calls := host.cell.calls + 1, result := some p }
  memory := host.memory
  log := host.log ++ [ProbeCell.logRecord p]

end Host

section Reading

variable {host : Host} {p : Platform}

/-- A platform that is kept is found without a call. -/
theorem run_platform_of_result (h : host.cell.result = some p) :
    Hosted.platform.run host = (.ok p, host) := by
  rw [Hosted.run_platform, ProbeCell.get, h]
  simp [Except.mapError]

theorem run_platform_of_ok (hempty : host.cell.result = none)
    (hprobe : host.cell.probe host.cell.calls = .ok p) :
    Hosted.platform.run host = (.ok p, host.found p) := by
  rw [Hosted.run_platform, ProbeCell.get, hempty]
  simp [hprobe, Except.mapError, Host.found]

theorem run_platform_of_error {failure : ProbeFailure} (hempty : host.cell.result = none)
    (hprobe : host.cell.probe host.cell.calls = .error failure) :
    Hosted.platform.run host = (.error (.probeFailed failure), host.missed) := by
  rw [Hosted.run_platform, ProbeCell.get, hempty]
  simp [hprobe, hempty, Except.mapError, Host.missed]

end Reading

/-- The answer to a query on a known platform. -/
def Query.answerOn (p : Platform) : Query → Guarded Reply
  | platform => return .platform p
  | ieee754 => return .ieee754 p.ieee754
  | convert r target source count => return .converted (← r.guardedCall p target source count)

section Asking

variable {host host' : Host} {p : Platform}

/-- A conversion whose readings all find one platform is the conversion on that platform. -/
theorem run_hostedCall (r : Routine) (target source : Operand) (count : Int)
    (hfirst : Hosted.platform.run host = (.ok p, host')) (hkept : host'.cell.result = some p) :
    (r.hostedCall target source count).run host =
      (Hosted.onMemory (r.guardedCall p target source count)).run host' := by
  unfold Routine.hostedCall
  rw [Hosted.run_bind_of_ok hfirst]
  cases hp : p.ieee754 with
  | false =>
      rw [Routine.guardedCall, Routine.prepare_of_not_ieee754 hp]
      rfl
  | true =>
      by_cases habsent : target = .absent ∨ source = .absent
      · rw [Routine.guardedCall, Routine.prepare_of_absent hp habsent, if_neg (by decide),
          if_pos (by simpa using habsent.symm)]
        rfl
      · -- The platform is kept by now, so reading it again finds the same one.
        have horder : (r.wordOrder p).run host' = (.ok p, host') := by
          unfold Routine.wordOrder
          split
          · exact run_platform_of_result hkept
          · rfl
        rw [if_neg (by decide), if_neg (by simpa using mt Or.symm habsent),
          Hosted.run_bind_of_ok horder, ← hp]

theorem run_answer (query : Query) (hfirst : Hosted.platform.run host = (.ok p, host'))
    (hkept : host'.cell.result = some p) :
    query.answer.run host = (Hosted.onMemory (query.answerOn p)).run host' := by
  cases query with
  | platform | ieee754 => exact Hosted.run_bind_of_ok hfirst
  | convert r target source count =>
      rw [Query.answer, Hosted.run_bind, run_hostedCall r target source count hfirst hkept,
        Hosted.run_onMemory, Hosted.run_onMemory, Query.answerOn, Guarded.run_bind]
      cases ((r.guardedCall p target source count).run host'.memory).1 <;> rfl

theorem run_answer_of_error (query : Query) {e : HostError}
    (h : Hosted.platform.run host = (.error e, host')) :
    query.answer.run host = (.error e, host') := by
  cases query with
  | platform | ieee754 => exact Hosted.run_bind_of_error h
  | convert r target source count =>
      exact Hosted.run_bind_of_error (Hosted.run_bind_of_error h)

end Asking

namespace Host

variable {host : Host} {p : Platform} (query : Query)

/-- A request to a full cell. -/
theorem ask_of_result (h : host.cell.result = some p) :
    host.ask query = (Hosted.onMemory (query.answerOn p)).run host :=
  run_answer query (run_platform_of_result h) h

/-- A request whose call of the probe finds a platform. -/
theorem ask_of_ok (hempty : host.cell.result = none)
    (hprobe : host.cell.probe host.cell.calls = .ok p) :
    host.ask query = (Hosted.onMemory (query.answerOn p)).run (host.found p) :=
  run_answer query (run_platform_of_ok hempty hprobe) rfl

/-- A request whose call of the probe fails. -/
theorem ask_of_error {failure : ProbeFailure} (hempty : host.cell.result = none)
    (hprobe : host.cell.probe host.cell.calls = .error failure) :
    host.ask query = (.error (.probeFailed failure), host.missed) :=
  run_answer_of_error query (run_platform_of_error hempty hprobe)

theorem size_run_answerOn (m : Memory) :
    ((query.answerOn p).run m).2.bytes.size = m.bytes.size := by
  cases query with
  | platform | ieee754 => rfl
  | convert r target source count =>
      have hcall := r.confined_guardedCall p target source count
      exact (hcall.bind fun done => Guarded.confined_pure (Reply.converted done)).size m

/-- No request makes memory larger or smaller. -/
theorem size_ask (host : Host) :
    (host.ask query).2.memory.bytes.size = host.memory.bytes.size := by
  cases hresult : host.cell.result with
  | some p =>
      rw [ask_of_result query hresult]
      exact size_run_answerOn query host.memory
  | none =>
      cases hprobe : host.cell.probe host.cell.calls with
      | ok p =>
          rw [ask_of_ok query hresult hprobe]
          exact size_run_answerOn query host.memory
      | error failure =>
          rw [ask_of_error query hresult hprobe]
          rfl

theorem after_concat (host : Host) (earlier : List Query) (query : Query) :
    host.after (earlier ++ [query]) = ((host.after earlier).ask query).2 :=
  List.foldl_concat ..

theorem size_after (host : Host) (earlier : List Query) :
    (host.after earlier).memory.bytes.size = host.memory.bytes.size := by
  induction earlier using List.reverseRecOn with
  | nil => rfl
  | append_singleton earlier query ih => rw [after_concat, size_ask, ih]

end Host

end HalfPrecision
