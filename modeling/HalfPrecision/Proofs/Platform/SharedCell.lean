import HalfPrecision.Platform.SharedCell

/-!
# A shared cell is filled once

However the steps of the readings are mixed, the lock keeps all but one of them from what is done
between looking at the cell for the second time and filling it. So at most one call of the probe
succeeds, what it finds is logged once and kept for good, and every reading that does not fail
answers with it.
-/

namespace HalfPrecision.SharedCell

variable {Reading : Type}

namespace State

variable (s : State Reading)

/-- What the calls found that did not fail. -/
def found : List Platform := s.calls.filterMap fun call => call.2.toOption

/-- Whether all that has been found is in the cell, and the log tells of it. -/
def Settled : Prop :=
  s.found = s.result.toList ∧ s.log = s.result.toList.map ProbeCell.logRecord

/-- What holds of cell, calls and log while the reading that has the lock is at a stage. -/
@[simp] def Inside : Stage → Prop
  | .probed p => s.result = none ∧ s.found = [p] ∧ s.log = []
  | .logged p => s.result = none ∧ s.found = [p] ∧ s.log = [ProbeCell.logRecord p]
  | .calling | .leaving (.error _) => s.result = none ∧ s.Settled
  | .filled => s.result.isSome ∧ s.Settled
  | _ => s.Settled

@[simp] theorem found_called_ok (r : Reading) (p : Platform) :
    (s.called r (.ok p)).found = s.found ++ [p] := by
  simp [found, called, Except.toOption]

@[simp] theorem found_called_error (r : Reading) (failure : ProbeFailure) :
    (s.called r (.error failure)).found = s.found := by
  simp [found, called, Except.toOption]

variable [DecidableEq Reading]

@[simp] theorem found_move (r : Reading) (stage : Stage) : (s.move r stage).found = s.found := rfl

end State

/-- What holds in every state that is met. -/
structure Inv (s : State Reading) : Prop where
  holdsLock_iff : ∀ r, (s.stage r).HoldsLock ↔ s.holder = some r
  settled : s.holder = none → s.Settled
  inside : ∀ r, (s.stage r).HoldsLock → s.Inside (s.stage r)
  answered : ∀ r found, (s.stage r).answer? = some (.ok found) →
    s.result = found ∧ found.isSome
  failed_iff : ∀ r failure,
    (r, .error failure) ∈ s.calls ↔ (s.stage r).answer? = some (.error failure)

theorem Inv.start : Inv ({} : State Reading) := by
  constructor <;> simp [State.Settled, State.found]

namespace Inv

variable {s s' : State Reading} {r other : Reading} {p : Platform}

theorem eq_of_holdsLock (h : Inv s) (hr : (s.stage r).HoldsLock)
    (hother : (s.stage other).HoldsLock) : other = r := by
  have holder := (h.holdsLock_iff r).1 hr
  rw [(h.holdsLock_iff other).1 hother] at holder
  exact Option.some.inj holder

theorem of_stage (h : Inv s) {stage : Stage} (hstage : s.stage r = stage)
    (hlock : stage.HoldsLock) : s.holder = some r ∧ s.Inside stage := by
  subst hstage
  exact ⟨(h.holdsLock_iff r).1 hlock, h.inside r hlock⟩

/-- One reading has the lock, so its stage alone says what holds. -/
theorem inside_of_holder (hlock : ∀ r, (s.stage r).HoldsLock ↔ s.holder = some r)
    (hholder : s.holder = some r) (hinside : s.Inside (s.stage r)) (other : Reading)
    (hother : (s.stage other).HoldsLock) : s.Inside (s.stage other) := by
  have heq := (hlock other).1 hother
  rw [hholder] at heq
  obtain rfl := Option.some.inj heq
  exact hinside

/-- What has been found is in the cell and in the log, but for the time between the call that found
it and its storing. -/
theorem settled_or_found (h : Inv s) :
    s.Settled ∨ s.result = none ∧
      ∃ p, s.found = [p] ∧ (s.log = [] ∨ s.log = [ProbeCell.logRecord p]) := by
  cases hholder : s.holder with
  | none => exact .inl (h.settled hholder)
  | some r =>
      have hlock := (h.holdsLock_iff r).2 hholder
      cases hstage : s.stage r with
      | started | waiting | answering answer | returned answer => simp [hstage] at hlock
      | entered => exact .inl (h.of_stage hstage trivial).2
      | calling | filled => exact .inl (h.of_stage hstage trivial).2.2
      | probed p =>
          obtain ⟨_, hempty, hfound, hlog⟩ := h.of_stage hstage trivial
          exact .inr ⟨hempty, p, hfound, .inl hlog⟩
      | logged p =>
          obtain ⟨_, hempty, hfound, hlog⟩ := h.of_stage hstage trivial
          exact .inr ⟨hempty, p, hfound, .inr hlog⟩
      | leaving answer =>
          have hinside := (h.of_stage hstage trivial).2
          cases answer with
          | ok found => exact .inl hinside
          | error failure => exact .inl hinside.2

theorem settled_of_result_eq (h : Inv s) (hp : s.result = some p) : s.Settled := by
  rcases h.settled_or_found with hsettled | ⟨hempty, _⟩
  · exact hsettled
  · simp [hp] at hempty

theorem length_found_le_one (h : Inv s) : s.found.length ≤ 1 := by
  rcases h.settled_or_found with ⟨hfound, _⟩ | ⟨_, p, hfound, _⟩
  · cases hresult : s.result <;> simp [hfound, hresult]
  · simp [hfound]

theorem log_eq_nil (h : Inv s) (hnone : s.found = []) : s.log = [] := by
  rcases h.settled_or_found with ⟨hfound, hlog⟩ | ⟨_, p, hfound, _⟩
  · have hempty : s.result = none := by simpa [hnone] using hfound.symm
    simpa [hempty] using hlog
  · simp [hfound] at hnone

theorem not_calling (h : Inv s) (hp : s.result = some p) (r : Reading) :
    s.stage r ≠ .calling := by
  intro hstage
  obtain ⟨_, hempty, _⟩ := h.of_stage hstage trivial
  simp [hp] at hempty

variable [DecidableEq Reading]

/-- A reading that leaves the lock alone has it before and after its step, or neither. -/
theorem holdsLock_iff_move (h : Inv s) {stage : Stage}
    (hsame : stage.HoldsLock ↔ (s.stage r).HoldsLock) (other : Reading) :
    ((s.move r stage).stage other).HoldsLock ↔ s.holder = some other := by
  rcases eq_or_ne other r with rfl | hother
  · rw [move_stage_self]
    exact hsame.trans (h.holdsLock_iff other)
  · rw [move_stage_of_ne s hother]
    exact h.holdsLock_iff other

theorem preserve_holdsLock_iff (h : Inv s) (step : Step s s') :
    ∀ r, (s'.stage r).HoldsLock ↔ s'.holder = some r := by
  cases step with
  | look r hstage => exact h.holdsLock_iff_move (by cases s.result <;> simp [hstage])
  | lookAgain r hstage => exact h.holdsLock_iff_move (by cases s.result <;> simp [hstage])
  | succeed r p hstage => exact h.holdsLock_iff_move (by simp [hstage])
  | fail r failure hstage => exact h.holdsLock_iff_move (by simp [hstage])
  | log r p hstage => exact h.holdsLock_iff_move (by simp [hstage])
  | store r p hstage => exact h.holdsLock_iff_move (by simp [hstage])
  | take r hstage => exact h.holdsLock_iff_move (by simp [hstage])
  | answer r answer hstage => exact h.holdsLock_iff_move (by simp [hstage])
  | acquire r hstage hfree =>
      intro other
      rcases eq_or_ne other r with rfl | hother
      · simp [State.move]
      · have hout := h.holdsLock_iff other
        simpa [State.move, hother, hother.symm, hfree] using hout
  | release r answer hstage =>
      have hholder := (h.of_stage hstage trivial).1
      intro other
      rcases eq_or_ne other r with rfl | hother
      · simp [State.move]
      · have hout := h.holdsLock_iff other
        simpa [State.move, hother, hother.symm, hholder] using hout

/-- What has been done with the lock is complete when it is given back. -/
theorem preserve_settled (h : Inv s) (step : Step s s') (hfree : s'.holder = none) :
    s'.Settled := by
  cases step with
  | look r hstage | take r hstage | answer r answer hstage | lookAgain r hstage =>
      exact h.settled hfree
  | acquire r hstage hbefore => simp [State.move] at hfree
  | succeed r p hstage | fail r failure hstage | log r p hstage | store r p hstage =>
      have hholder := (h.of_stage hstage trivial).1
      simp [State.move, State.called, hholder] at hfree
  | release r answer hstage =>
      have hinside := (h.of_stage hstage trivial).2
      cases answer with
      | ok found => exact hinside
      | error failure => exact hinside.2

theorem preserve_inside (h : Inv s) (step : Step s s') :
    ∀ r, (s'.stage r).HoldsLock → s'.Inside (s'.stage r) := by
  have hlock := h.preserve_holdsLock_iff step
  cases step with
  | look r hstage | answer r answer hstage =>
      intro other hother
      rcases eq_or_ne other r with rfl | hne
      · cases hresult : s.result <;> simp [hresult] at hother
      · rw [move_stage_of_ne _ hne] at hother ⊢
        exact h.inside other hother
  | release r answer hstage =>
      intro other hother
      cases (hlock other).1 hother
  | acquire r hstage hfree =>
      refine inside_of_holder hlock rfl ?_
      rw [move_stage_self]
      exact h.settled hfree
  | lookAgain r hstage =>
      obtain ⟨hholder, hsettled⟩ := h.of_stage hstage trivial
      refine inside_of_holder hlock hholder ?_
      rw [move_stage_self]
      cases hresult : s.result with
      | none => exact ⟨hresult, hsettled⟩
      | some p => exact ⟨by simp [hresult], hsettled⟩
  | succeed r p hstage =>
      obtain ⟨hholder, hempty, hfound, hlog⟩ := h.of_stage hstage trivial
      refine inside_of_holder hlock hholder ?_
      rw [move_stage_self]
      exact ⟨hempty, by simp [hfound, hempty], by simp [State.called, hlog, hempty]⟩
  | fail r failure hstage =>
      obtain ⟨hholder, hempty, hfound, hlog⟩ := h.of_stage hstage trivial
      refine inside_of_holder hlock hholder ?_
      rw [move_stage_self]
      exact ⟨hempty, (s.found_called_error r failure).trans hfound, hlog⟩
  | log r p hstage =>
      obtain ⟨hholder, hempty, hfound, hlog⟩ := h.of_stage hstage trivial
      refine inside_of_holder hlock hholder ?_
      rw [move_stage_self]
      exact ⟨hempty, hfound, by simp [hlog]⟩
  | store r p hstage =>
      obtain ⟨hholder, hempty, hfound, hlog⟩ := h.of_stage hstage trivial
      refine inside_of_holder hlock hholder ?_
      rw [move_stage_self]
      exact ⟨rfl, hfound, hlog⟩
  | take r hstage =>
      obtain ⟨hholder, hfull, hsettled⟩ := h.of_stage hstage trivial
      refine inside_of_holder hlock hholder ?_
      rw [move_stage_self]
      exact hsettled

/-- A full cell stays as it is, and the probe is not called again. -/
theorem step_of_result_eq (h : Inv s) (step : Step s s') (hp : s.result = some p) :
    s'.result = some p ∧ s'.calls = s.calls := by
  cases step with
  | look r hstage | acquire r hstage hfree | lookAgain r hstage | log r p hstage | take r hstage
  | release r answer hstage | answer r answer hstage => exact ⟨hp, rfl⟩
  | succeed r p hstage | fail r failure hstage | store r p hstage =>
      obtain ⟨_, hempty, _⟩ := h.of_stage hstage trivial
      rw [hp] at hempty
      cases hempty

theorem answered_move (h : Inv s) {stage : Stage}
    (hnew : ∀ found, stage.answer? = some (.ok found) → s.result = found ∧ found.isSome) :
    ∀ other found, ((s.move r stage).stage other).answer? = some (.ok found) →
      s.result = found ∧ found.isSome := by
  intro other found hanswer
  rcases eq_or_ne other r with rfl | hother
  · rw [move_stage_self] at hanswer
    exact hnew found hanswer
  · rw [move_stage_of_ne s hother] at hanswer
    exact h.answered other found hanswer

theorem preserve_answered (h : Inv s) (step : Step s s') :
    ∀ r found, (s'.stage r).answer? = some (.ok found) → s'.result = found ∧ found.isSome := by
  cases step with
  | look r hstage =>
      apply h.answered_move
      cases hresult : s.result <;> simp
  | lookAgain r hstage =>
      apply h.answered_move
      cases hresult : s.result <;> simp
  | acquire r hstage hfree => exact h.answered_move (by simp)
  | succeed r p hstage => exact h.answered_move (by simp)
  | fail r failure hstage => exact h.answered_move (by simp)
  | log r p hstage => exact h.answered_move (by simp)
  | take r hstage =>
      obtain ⟨_, hfull, _⟩ := h.of_stage hstage trivial
      exact h.answered_move (by simpa using hfull)
  | release r answer hstage =>
      have hanswer := h.answered r
      rw [hstage] at hanswer
      exact h.answered_move hanswer
  | answer r answer hstage =>
      have hanswer := h.answered r
      rw [hstage] at hanswer
      exact h.answered_move hanswer
  | store r p hstage =>
      -- While the cell is empty nobody has an answer from it.
      obtain ⟨_, hempty, _⟩ := h.of_stage hstage trivial
      intro other found hanswer
      rcases eq_or_ne other r with rfl | hother
      · simp at hanswer
      · rw [move_stage_of_ne _ hother] at hanswer
        obtain ⟨hfound, hsome⟩ := h.answered other found hanswer
        simp [← hfound, hempty] at hsome

theorem failed_iff_move (h : Inv s) {stage : Stage}
    (hsame : ∀ failure, stage.answer? = some (.error failure) ↔
      (s.stage r).answer? = some (.error failure)) :
    ∀ other failure, (other, .error failure) ∈ s.calls ↔
      ((s.move r stage).stage other).answer? = some (.error failure) := by
  intro other failure
  rcases eq_or_ne other r with rfl | hother
  · rw [move_stage_self, h.failed_iff, hsame]
  · rw [move_stage_of_ne s hother, h.failed_iff]

theorem preserve_failed_iff (h : Inv s) (step : Step s s') :
    ∀ r failure, (r, .error failure) ∈ s'.calls ↔
      (s'.stage r).answer? = some (.error failure) := by
  cases step with
  | look r hstage =>
      apply h.failed_iff_move
      cases s.result <;> simp [hstage]
  | lookAgain r hstage =>
      apply h.failed_iff_move
      cases s.result <;> simp [hstage]
  | acquire r hstage hfree => exact h.failed_iff_move (by simp [hstage])
  | log r p hstage => exact h.failed_iff_move (by simp [hstage])
  | store r p hstage => exact h.failed_iff_move (by simp [hstage])
  | take r hstage => exact h.failed_iff_move (by simp [hstage])
  | release r answer hstage => exact h.failed_iff_move (by simp [hstage])
  | answer r answer hstage => exact h.failed_iff_move (by simp [hstage])
  | succeed r p hstage =>
      intro other failure
      refine Iff.trans ?_ (h.failed_iff_move (by simp [hstage]) other failure)
      simp [State.called]
  | fail r failure hstage =>
      intro other failure'
      have hbefore := h.failed_iff other failure'
      rcases eq_or_ne other r with rfl | hother
      · rw [hstage] at hbefore
        simp [State.called, hbefore, eq_comm]
      · rw [move_stage_of_ne _ hother]
        simpa [State.called, hother] using hbefore

theorem preserve (h : Inv s) (step : Step s s') : Inv s' where
  holdsLock_iff := h.preserve_holdsLock_iff step
  settled := h.preserve_settled step
  inside := h.preserve_inside step
  answered := h.preserve_answered step
  failed_iff := h.preserve_failed_iff step

theorem of_runs (h : Inv s) (runs : Runs s s') : Inv s' := by
  induction runs with
  | refl => exact h
  | tail _ step ih => exact ih.preserve step

theorem runs_of_result_eq (h : Inv s) (runs : Runs s s') (hp : s.result = some p) :
    s'.result = some p ∧ s'.calls = s.calls := by
  induction runs with
  | refl => exact ⟨hp, rfl⟩
  | tail runs step ih =>
      obtain ⟨hresult, hcalls⟩ := (h.of_runs runs).step_of_result_eq step ih.1
      exact ⟨hresult, hcalls.trans ih.2⟩

end Inv

/-- What the lock, the cell and the log promise in a state and in all that come after it. -/
structure Safe [DecidableEq Reading] (s : State Reading) : Prop where
  exclusive : ∀ r other, (s.stage r).HoldsLock → (s.stage other).HoldsLock → other = r
  one_success : s.found.length ≤ 1
  /-- A full cell keeps what it holds, and the probe is left alone. -/
  kept : ∀ p, s.result = some p → ∀ s', Runs s s' →
    s'.result = some p ∧ s'.calls = s.calls ∧ ∀ r, s'.stage r ≠ .calling
  returned : ∀ r answer, s.stage r = .returned (.ok answer) → ∃ p, answer = some p ∧ s.found = [p]
  failed_iff : ∀ r failure,
    (r, .error failure) ∈ s.calls ↔ (s.stage r).answer? = some (.error failure)
  /-- A reading whose call fails gives back the lock of an empty cell. -/
  failing : ∀ r failure, s.stage r = .leaving (.error failure) →
    s.result = none ∧ (∃ s', Step s s' ∧ s'.stage r = .answering (.error failure)) ∧
      ∀ s', Step s s' → s'.stage r ≠ s.stage r → s'.result = none ∧ s'.holder = none
  /-- A reading that finds cell and lock free can come to call the probe. -/
  retried : s.result = none → s.holder = none →
    ∀ r, s.stage r = .started ∨ s.stage r = .waiting → ∃ s', Runs s s' ∧ s'.stage r = .calling
  logged : ∀ p, s.result = some p → s.log = [ProbeCell.logRecord p] ∧
    (ProbeCell.logRecord p).level = if p.ieee754 then .debug else .error
  quiet : s.found = [] → s.log = []

section Runs

variable [DecidableEq Reading] {s s' : State Reading} {r : Reading}

/-- A reading that is about to give back the lock does nothing else. -/
theorem Step.eq_release (step : Step s s') (hmoved : s'.stage r ≠ s.stage r) {answer : Answer}
    (hstage : s.stage r = .leaving answer) :
    s' = State.move { s with holder := none } r (.answering answer) := by
  have absurd_of_ne : ∀ {t : State Reading} {other : Reading} {stage : Stage},
      t.stage = s.stage → (t.move other stage).stage r ≠ s.stage r → r = other := by
    intro t other stage hsame hmoved
    by_contra hne
    rw [move_stage_of_ne t hne, hsame] at hmoved
    exact hmoved rfl
  cases step with
  | release other answer' hother =>
      obtain rfl := absurd_of_ne rfl hmoved
      rw [hstage] at hother
      cases hother
      rfl
  | look other hother | acquire other hother hfree | lookAgain other hother
  | succeed other p hother | fail other failure hother | log other p hother
  | store other p hother | take other hother | answer other answer' hother =>
      obtain rfl := absurd_of_ne rfl hmoved
      simp [hstage] at hother

/-- A reading that finds cell and lock free can come to call the probe. -/
theorem runs_calling_of_waiting (hempty : s.result = none) (hfree : s.holder = none)
    (hstage : s.stage r = .waiting) :
    ∃ s', Runs s s' ∧ s'.stage r = .calling ∧ s'.result = none ∧ s'.log = s.log := by
  have hacquire := Step.acquire s r hstage hfree
  have hlook := Step.lookAgain _ r (move_stage_self { s with holder := some r } r .entered)
  refine ⟨_, (Relation.ReflTransGen.single hacquire).tail hlook, ?_, hempty, rfl⟩
  simp [hempty]

theorem runs_calling (hempty : s.result = none) (hfree : s.holder = none)
    (hstage : s.stage r = .started ∨ s.stage r = .waiting) :
    ∃ s', Runs s s' ∧ s'.stage r = .calling ∧ s'.result = none ∧ s'.log = s.log := by
  rcases hstage with hstarted | hwaiting
  · have hlook := Step.look s r hstarted
    rw [hempty] at hlook
    obtain ⟨s', hruns, hcalling⟩ :=
      runs_calling_of_waiting (s := s.move r .waiting) (r := r) hempty hfree (by simp)
    exact ⟨s', .head hlook hruns, hcalling⟩
  · exact runs_calling_of_waiting hempty hfree hwaiting

theorem runs_returned_of_leaving {answer : Answer} (hstage : s.stage r = .leaving answer) :
    ∃ s', Runs s s' ∧ s'.stage r = .returned answer ∧ s'.holder = none ∧ s'.result = s.result ∧
      s'.log = s.log := by
  have hrelease := Step.release s r answer hstage
  have hanswer := Step.answer _ r answer
    (move_stage_self { s with holder := none } r (.answering answer))
  exact ⟨_, (Relation.ReflTransGen.single hrelease).tail hanswer, by simp, rfl, rfl, rfl⟩

theorem runs_leaving_of_calling (hstage : s.stage r = .calling) (p : Platform) :
    ∃ s', Runs s s' ∧ s'.stage r = .leaving (.ok (some p)) ∧ s'.result = some p ∧
      s'.log = s.log ++ [ProbeCell.logRecord p] := by
  have hlogged := (Relation.ReflTransGen.single (Step.succeed s r p hstage)).tail
    (.log _ r p (move_stage_self _ r _))
  have htaken := (hlogged.tail (.store _ r p (move_stage_self _ r _))).tail
    (.take _ r (move_stage_self _ r _))
  refine ⟨_, htaken, ?_⟩
  simp [State.called]

/-- A reading that no other one disturbs does what the reading of an unshared cell does. -/
theorem runs_get (cell : ProbeCell) (hresult : s.result = cell.result) (hfree : s.holder = none)
    (hstage : s.stage r = .started) :
    ∃ s', Runs s s' ∧ s'.stage r = .returned (cell.get.answer.map some) ∧ s'.holder = none ∧
      s'.result = cell.get.cell.result ∧ s'.log = s.log ++ cell.get.log := by
  cases hcell : cell.result with
  | some p =>
      have hlook := Step.look s r hstage
      have hfull : s.result = some p := hresult.trans hcell
      rw [hfull] at hlook
      have hanswer := Step.answer _ r _ (move_stage_self s r (.answering (.ok (some p))))
      refine ⟨_, (Relation.ReflTransGen.single hlook).tail hanswer, ?_⟩
      simp [ProbeCell.get, hcell, hfree, hfull, Except.map]
  | none =>
      obtain ⟨t, hruns, hcalling, hempty, hlog⟩ :=
        runs_calling (hresult.trans hcell) hfree (.inl hstage)
      cases hprobe : cell.probe cell.calls with
      | ok p =>
          obtain ⟨u, hruns', hleaving, hfull, hlog'⟩ := runs_leaving_of_calling hcalling p
          obtain ⟨s', hruns'', hreturned, hholder, hsame, hlog''⟩ :=
            runs_returned_of_leaving hleaving
          refine ⟨s', (hruns.trans hruns').trans hruns'', ?_⟩
          simp_all [ProbeCell.get, Except.map]
      | error failure =>
          have hfail := Step.fail t r failure hcalling
          obtain ⟨s', hruns', hreturned, hholder, hsame, hlog'⟩ :=
            runs_returned_of_leaving (move_stage_self (t.called r (.error failure)) r
              (.leaving (.error failure)))
          refine ⟨s', (hruns.tail hfail).trans hruns', ?_⟩
          simp_all [ProbeCell.get, Except.map, State.called]

end Runs

/-- What the cell promises holds in every state of every run. -/
theorem Reachable.safe [DecidableEq Reading] {s : State Reading} (h : Reachable s) : Safe s := by
  have hinv : Inv s := Inv.start.of_runs h
  refine
    { exclusive := fun r other => hinv.eq_of_holdsLock
      one_success := hinv.length_found_le_one
      kept := ?kept
      returned := ?returned
      failed_iff := hinv.failed_iff
      failing := ?failing
      retried := ?retried
      logged := ?logged
      quiet := hinv.log_eq_nil }
  case kept =>
    intro p hp s' hruns
    obtain ⟨hresult, hcalls⟩ := hinv.runs_of_result_eq hruns hp
    exact ⟨hresult, hcalls, (hinv.of_runs hruns).not_calling hresult⟩
  case returned =>
    intro r answer hstage
    obtain ⟨hresult, hsome⟩ := hinv.answered r answer (by simp [hstage])
    obtain ⟨p, rfl⟩ := Option.isSome_iff_exists.1 hsome
    have hfound := (hinv.settled_of_result_eq hresult).1
    exact ⟨p, rfl, by simpa [hresult] using hfound⟩
  case failing =>
    intro r failure hstage
    obtain ⟨_, hempty, _⟩ := hinv.of_stage hstage trivial
    refine ⟨hempty, ⟨_, .release s r _ hstage, move_stage_self _ r _⟩, ?_⟩
    intro s' hstep hmoved
    obtain rfl := hstep.eq_release hmoved hstage
    exact ⟨hempty, rfl⟩
  case retried =>
    intro hempty hfree r hstage
    obtain ⟨s', hruns, hcalling, _⟩ := runs_calling hempty hfree hstage
    exact ⟨s', hruns, hcalling⟩
  case logged =>
    intro p hp
    have hlog := (hinv.settled_of_result_eq hp).2
    refine ⟨by simpa [hp] using hlog, ?_⟩
    cases hieee : p.ieee754 <;> simp [ProbeCell.logRecord, hieee]

/-- Two readings find the cell empty. The call of the first one fails, so the second one calls too. -/
theorem safe_after_failed_call :
    ∃ s : State Bool, Reachable s ∧ s.stage false = .returned (.error ⟨"no doubles"⟩) ∧
      s.stage true = .returned (.ok (some .native)) ∧
      s.calls = [(false, .error ⟨"no doubles"⟩), (true, .ok .native)] ∧ Safe s := by
  have hlook : Runs ({} : State Bool) _ :=
    (Relation.ReflTransGen.single (.look _ false rfl)).tail (.look _ true rfl)
  have hfail := ((hlook.tail (.acquire _ false rfl rfl)).tail (.lookAgain _ false rfl)).tail
    (.fail _ false ⟨"no doubles"⟩ rfl)
  have hcall := ((hfail.tail (.release _ false _ rfl)).tail (.acquire _ true rfl rfl)).tail
    (.lookAgain _ true rfl)
  have hstore := (((hcall.tail (.answer _ false _ rfl)).tail (.succeed _ true .native rfl)).tail
    (.log _ true _ rfl)).tail (.store _ true _ rfl)
  have hreturn := ((hstore.tail (.take _ true rfl)).tail (.release _ true _ rfl)).tail
    (.answer _ true _ rfl)
  exact ⟨_, hreturn, rfl, rfl, rfl, Reachable.safe hreturn⟩

end HalfPrecision.SharedCell
