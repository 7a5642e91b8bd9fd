import HalfPrecision.Proofs.Batch.Alone
import HalfPrecision.Proofs.Batch.Confined
import Mathlib.Data.Fintype.Basic

/-!
# Independent calls may be interleaved

Calls are independent if none of them writes bytes that it reads itself, or that another one reads
or writes. Steps of two such calls can be done in either order, so that every interleaving takes as
many steps as any other one and ends in the same state: the one that the calls reach one after the
other.
-/

namespace HalfPrecision

open Interleaving

namespace Interleaving

/-- A loop reads one of its rows and writes the other one. -/
theorem confined_loopAction {r : Routine} {p : Platform} {count : Nat} {out src : Words}
    {stage : Stage} {action : Guarded Stage} (h : loopAction? r p count out src stage = some action) :
    action.Confined src.bytes out.bytes := by
  have hread : ∀ (index : Int) (later : Nat → Stage),
      (src.fetch index >>= fun a => pure (later a)).Confined src.bytes out.bytes := by
    intro index later
    exact (src.confined_fetch index).bind fun _ => Guarded.confined_pure _
  have hwrite : ∀ (index value : Int) (later : Stage),
      (out.assign index value >>= fun _ => pure later).Confined src.bytes out.bytes := by
    intro index value later
    exact (out.confined_assign index value).bind fun _ => Guarded.confined_pure _
  cases stage with
  | next i =>
      rw [loopAction?, Option.ite_none_right_eq_some] at h
      cases r <;> obtain rfl := Option.some.inj h.2 <;> exact hread _ _
  | halfRead i high =>
      obtain rfl := Option.some.inj h
      exact hread _ _
  | converted i pattern => cases r <;> obtain rfl := Option.some.inj h <;> exact hwrite _ _ _
  | halfWritten i pattern =>
      obtain rfl := Option.some.inj h
      exact hwrite _ _ _

end Interleaving

namespace Call

variable (c : Call) (p : Platform)

/-- The addresses of the elements that a call converts. -/
def reads : Set Nat := c.source.window (c.count.toNat * c.routine.source.size)

/-- The addresses of the elements that a call gives. -/
def writes : Set Nat := c.target.window (c.count.toNat * c.routine.target.size)

/-- Whether a loop goes over the rows that the checks of the call gave. -/
def Prepares : Progress → Prop
  | .looping out src _ => c.routine.prepare p c.target c.source c.count = .ok (.rows out src)
  | .called | .returned _ => True

variable {c p} {progress next : Progress} {action : Guarded Progress} {m m' : Memory}

/-- Whatever a call does next, it stays within its windows. -/
theorem confined_action (hprepares : c.Prepares p progress)
    (h : c.action? p progress = some action) : action.Confined c.reads c.writes := by
  cases progress with
  | called =>
      obtain rfl := Option.some.inj h
      unfold checkAction
      split
      · exact Guarded.confined_throw _
      · exact Guarded.confined_pure _
      · exact Guarded.confined_pure _
  | looping out src stage =>
      obtain ⟨hout, hsrc⟩ := Routine.bytes_of_prepare_eq_rows hprepares
      rw [reads, writes, ← hout, ← hsrc]
      simp only [action?] at h
      split at h
      next hloop =>
        obtain rfl := Option.some.inj h
        exact (confined_loopAction hloop).bind fun _ => Guarded.confined_pure _
      next =>
        obtain rfl := Option.some.inj h
        exact Guarded.confined_pure _
  | returned answer => cases h

/-- A loop stays with its rows. -/
theorem prepares_after (hprepares : c.Prepares p progress)
    (h : c.action? p progress = some action) (m : Memory) :
    c.Prepares p (.after (action.run m).1) := by
  cases progress with
  | called =>
      obtain rfl := Option.some.inj h
      unfold checkAction
      split
      · trivial
      · trivial
      next hrows => exact hrows
  | looping out src stage =>
      simp only [action?] at h
      split at h
      next loopAction _ =>
        obtain rfl := Option.some.inj h
        rw [Guarded.run_bind]
        cases (loopAction.run m).1 with
        | ok stage => exact hprepares
        | error e => trivial
      next =>
        obtain rfl := Option.some.inj h
        trivial
  | returned answer => cases h

/-- Whether two calls can be made at the same time: neither writes what the other one reads, and they
write apart. -/
def Separate (c c' : Call) : Prop :=
  Disjoint c.reads c'.writes ∧ Disjoint c'.reads c.writes ∧ Disjoint c.writes c'.writes

theorem exists_action_of_advance (h : c.advance p progress m = some (next, m')) :
    ∃ action, c.action? p progress = some action ∧ next = .after (action.run m).1 ∧
      m' = (action.run m).2 := by
  obtain ⟨action, haction, heq⟩ := Option.map_eq_some_iff.1 h
  cases heq
  exact ⟨action, haction, rfl, rfl⟩

theorem prepares_of_advance (hprepares : c.Prepares p progress)
    (h : c.advance p progress m = some (next, m')) : c.Prepares p next := by
  obtain ⟨action, haction, rfl, rfl⟩ := exists_action_of_advance h
  exact prepares_after hprepares haction m

/-- Steps of separate calls can be done in either order. -/
theorem advance_comm {c' : Call} {progress' next' : Progress} {m₁ m₂ : Memory}
    (hseparate : c.Separate c') (hprepares : c.Prepares p progress)
    (hprepares' : c'.Prepares p progress') (h : c.advance p progress m = some (next, m₁))
    (h' : c'.advance p progress' m = some (next', m₂)) :
    ∃ m₃, c'.advance p progress' m₁ = some (next', m₃) ∧
      c.advance p progress m₂ = some (next, m₃) := by
  obtain ⟨action, haction, rfl, rfl⟩ := exists_action_of_advance h
  obtain ⟨action', haction', rfl, rfl⟩ := exists_action_of_advance h'
  have hconfined := confined_action hprepares haction
  have hconfined' := confined_action hprepares' haction'
  obtain ⟨hreads, hreads', hwrites⟩ := hseparate
  refine ⟨(action'.run (action.run m).2).2, ?_, ?_⟩
  · have hanswer := hconfined'.answer_congr (hconfined.agreeOn_run hreads' m)
    rw [advance, haction', Option.map_some, hanswer]
  · have hanswer := hconfined.answer_congr (hconfined'.agreeOn_run hreads m)
    rw [advance, haction, Option.map_some, hanswer,
      hconfined.memory_comm hconfined' hreads hreads' hwrites]

end Call

namespace Interleaving

variable {Index : Type} [DecidableEq Index] {p : Platform} {calls : Index → Call}
  {s t u : State Index}

def Sound (p : Platform) (calls : Index → Call) (s : State Index) : Prop :=
  ∀ i, (calls i).Prepares p (s.progress i)

/-- Whether any two calls can be made at the same time. -/
def Independent (calls : Index → Call) : Prop := Pairwise fun i j => (calls i).Separate (calls j)

theorem Sound.step (hs : Sound p calls s) (step : Step p calls s t) : Sound p calls t := by
  cases step with
  | advance i next m moved =>
      intro j
      rcases eq_or_ne j i with rfl | hj
      · simpa using Call.prepares_of_advance (hs j) moved
      · simpa [hj] using hs j

/-- Two steps from one state are the same one, or the other one can follow either of them. -/
theorem Step.diamond (hindependent : Independent calls) (hs : Sound p calls s)
    (ht : Step p calls s t) (hu : Step p calls s u) :
    t = u ∨ ∃ v, Step p calls t v ∧ Step p calls u v := by
  cases ht with
  | advance i next m moved =>
      cases hu with
      | advance j next' m' moved' =>
          rcases eq_or_ne j i with rfl | hj
          · rw [moved] at moved'
            cases moved'
            exact .inl rfl
          · obtain ⟨m'', hlater, hlater'⟩ :=
              Call.advance_comm (hindependent hj.symm) (hs i) (hs j) moved moved'
            refine .inr ⟨⟨m'', Function.update (Function.update s.progress i next) j next'⟩, ?_, ?_⟩
            · exact .advance _ j next' m'' (by simpa [hj] using hlater)
            · rw [Function.update_comm hj.symm]
              exact .advance _ i next m'' (by simpa [hj.symm] using hlater')

/-- Whether a number of steps leads to an end. -/
inductive EndsIn (p : Platform) (calls : Index → Call) (final : State Index) :
    Nat → State Index → Prop where
  | here : EndsIn p calls final 0 final
  | step {n : Nat} {s t : State Index} (first : Step p calls s t)
      (rest : EndsIn p calls final n t) : EndsIn p calls final (n + 1) s

variable {final : State Index} {n : Nat}

theorem exists_endsIn_of_runs (runs : Runs p calls s final) : ∃ n, EndsIn p calls final n s := by
  induction runs using Relation.ReflTransGen.head_induction_on with
  | refl => exact ⟨0, .here⟩
  | head step _ ih =>
      obtain ⟨n, hends⟩ := ih
      exact ⟨n + 1, .step step hends⟩

namespace EndsIn

variable (hindependent : Independent calls) (hfinal : ∀ t, ¬ Step p calls final t)
  (hs : Sound p calls s) (h : EndsIn p calls final n s)

include hindependent hfinal hs h

/-- Whichever step is taken, it is one less to the end. -/
theorem of_step (step : Step p calls s t) : ∃ k, n = k + 1 ∧ EndsIn p calls final k t := by
  -- The induction is on the known way to the end. Its first step and the step taken make a square,
  -- whose far corner is as near to the end as the rest of the way.
  induction h generalizing t with
  | here => exact absurd step (hfinal t)
  | @step n s middle first rest ih =>
      refine ⟨n, rfl, ?_⟩
      rcases first.diamond hindependent hs step with rfl | ⟨corner, hmiddle, ht⟩
      · exact rest
      · obtain ⟨k, rfl, hcorner⟩ := ih (hs.step first) hmiddle
        exact .step ht hcorner

theorem of_runs (runs : Runs p calls s t) :
    Sound p calls t ∧ ∃ k, EndsIn p calls final k t := by
  induction runs with
  | refl => exact ⟨hs, n, h⟩
  | tail _ step ih =>
      obtain ⟨hsound, k, hends⟩ := ih
      obtain ⟨k', rfl, hends'⟩ := hends.of_step hindependent hfinal hsound step
      exact ⟨hsound.step step, k', hends'⟩

/-- A run that cannot go on has come to the end. -/
theorem eq_of_runs (runs : Runs p calls s t) (hnone : ∀ u, ¬ Step p calls t u) : t = final := by
  obtain ⟨_, k, hends⟩ := h.of_runs hindependent hfinal hs runs
  cases hends with
  | here => rfl
  | step first _ => exact absurd first (hnone _)

/-- No run goes on for longer than another one that comes to an end. -/
theorem not_infinite (run : Nat → State Index) (hstart : run 0 = s) :
    ¬ ∀ k, Step p calls (run k) (run (k + 1)) := by
  intro hrun
  have hleft : ∀ k, Sound p calls (run k) ∧
      ∃ left, left + k = n ∧ EndsIn p calls final left (run k) := by
    intro k
    induction k with
    | zero => exact hstart ▸ ⟨hs, n, rfl, h⟩
    | succ k ih =>
        obtain ⟨hsound, left, hsum, hends⟩ := ih
        obtain ⟨left', rfl, hends'⟩ := hends.of_step hindependent hfinal hsound (hrun k)
        exact ⟨hsound.step (hrun k), left', by omega, hends'⟩
  obtain ⟨_, left, hsum, _⟩ := hleft (n + 1)
  omega

end EndsIn

def State.done (m : Memory) : State Index :=
  { memory := m, progress := fun _ => .returned (.ok true) }

theorem not_step_done (m : Memory) : ¬ Step p calls (.done m) t := by
  intro step
  cases step with
  | advance i next m' moved => cases moved

/-- What a call does alone, it can do while the others rest. -/
theorem runs_of_advances {i : Index} {before later : Progress × Memory}
    (h : (calls i).Advances p before later) (hs : s.progress i = before.1)
    (hm : s.memory = before.2) :
    Runs p calls s ⟨later.2, Function.update s.progress i later.1⟩ := by
  induction h with
  | refl =>
      rw [← hs, ← hm, Function.update_eq_self]
      exact .refl
  | @tail middle later _ moved ih =>
      refine ih.tail ?_
      have hstep : Step p calls ⟨middle.2, Function.update s.progress i middle.1⟩ _ :=
        .advance _ i later.1 later.2 (by simpa using moved)
      rwa [Function.update_idem] at hstep

/-- Calls that are made one after the other all go through, and their steps are a run. -/
theorem runs_in_order (hp : p.ieee754 = true) (hvalid : ∀ i, (calls i).Valid)
    {order : List Index} (hnodup : order.Nodup) (s : State Index)
    (hcalled : ∀ i ∈ order, s.progress i = .called) :
    ∃ m', Call.runAll p (order.map calls) s.memory = .ok (order.map fun _ => true, m') ∧
      Runs p calls s
        { memory := m'
          progress := fun i => if i ∈ order then .returned (.ok true) else s.progress i } := by
  induction order generalizing s with
  | nil => exact ⟨s.memory, rfl, by simpa using .refl⟩
  | cons i rest ih =>
      obtain ⟨hnot, hrest⟩ := List.nodup_cons.1 hnodup
      obtain ⟨m, hrun, hadvances⟩ := (hvalid i).advances_run hp s.memory
      have hfirst := runs_of_advances hadvances (hcalled i List.mem_cons_self) rfl
      have hwaiting : ∀ j ∈ rest,
          Function.update s.progress i (.returned (.ok true)) j = .called := by
        intro j hj
        have hne : j ≠ i := fun heq => hnot (heq ▸ hj)
        rw [Function.update_of_ne hne]
        exact hcalled j (List.mem_cons_of_mem i hj)
      obtain ⟨m', hall, hothers⟩ := ih hrest ⟨m, _⟩ hwaiting
      refine ⟨m', ?_, ?_⟩
      · simp only [List.map_cons, Call.runAll, hrun]
        change (Call.runAll p (rest.map calls) m >>= fun later => pure (true :: later.1, later.2)) = _
        rw [hall]
        rfl
      · have hprogress : (fun j => if j ∈ i :: rest then .returned (.ok true) else s.progress j) =
            fun j => if j ∈ rest then .returned (.ok true) else
              Function.update s.progress i (.returned (.ok true)) j := by
          funext j
          rcases eq_or_ne j i with rfl | hne
          · simp
          · simp [hne]
        rw [hprogress]
        exact hfirst.trans hothers

/-- Calls of which none writes what another one reads or writes come to the same memory, however
their steps are mixed and in whichever order they are made one after the other; a call may run into
what it reads itself. No run of their steps goes on forever, and when no step is left all calls have
returned with the answer `true`. -/
theorem independent_calls_agree [Fintype Index] (hp : p.ieee754 = true)
    (hvalid : ∀ i, (calls i).Valid) (hindependent : Independent calls) (m : Memory) :
    ∃ m',
      (∀ order : List Index, order.Nodup → (∀ i, i ∈ order) →
        Call.runAll p (order.map calls) m = .ok (order.map fun _ => true, m')) ∧
      (∀ run : Nat → State Index, run 0 = .start m →
        ¬ ∀ k, Step p calls (run k) (run (k + 1))) ∧
      ∀ s, Runs p calls (.start m) s → (∀ t, ¬ Step p calls s t) →
        s.memory = m' ∧ ∀ i, s.progress i = .returned (.ok true) := by
  have hstart : Sound p calls (.start m) := fun _ => trivial
  have hcomplete : ∀ order : List Index, order.Nodup → (∀ i, i ∈ order) →
      ∃ m', Call.runAll p (order.map calls) m = .ok (order.map fun _ => true, m') ∧
        Runs p calls (.start m) (.done m') := by
    intro order hnodup hall
    obtain ⟨m', hrun, hruns⟩ := runs_in_order hp hvalid hnodup (.start m) fun _ _ => rfl
    exact ⟨m', hrun, by simpa [State.done, hall] using hruns⟩
  obtain ⟨m', _, hruns⟩ := hcomplete Finset.univ.toList Finset.univ.nodup_toList (by simp)
  obtain ⟨n, hends⟩ := exists_endsIn_of_runs hruns
  have hdone : ∀ t, ¬ Step p calls (.done m') t := fun _ => not_step_done m'
  refine ⟨m', ?_, ?_, ?_⟩
  · intro order hnodup hall
    obtain ⟨m'', hrun, hruns'⟩ := hcomplete order hnodup hall
    have hsame := hends.eq_of_runs hindependent hdone hstart hruns' fun _ => not_step_done m''
    have hmemory : m'' = m' := congrArg State.memory hsame
    rw [hrun, hmemory]
  · exact hends.not_infinite hindependent hdone hstart
  · intro s hs hnone
    rw [hends.eq_of_runs hindependent hdone hstart hs hnone]
    exact ⟨rfl, fun _ => rfl⟩

/-- Two halves that are widened to singles and to doubles at the same time. -/
def twoWidenings : Bool → Call
  | false =>
      { routine := .halvesToSingles
        target := .buffer { start := 4, itemSize := 4, axes := [⟨2, 4⟩], writable := true }
        source := .buffer { start := 0, itemSize := 2, axes := [⟨2, 2⟩], writable := false }
        count := 2 }
  | true =>
      { routine := .halvesToDoubles
        target := .buffer { start := 12, itemSize := 8, axes := [⟨2, 8⟩], writable := true }
        source := .buffer { start := 0, itemSize := 1, axes := [⟨4, 1⟩], writable := true }
        count := 2 }

/-- The two calls share their source and agree on the singles and doubles one and minus two. -/
theorem two_widenings_agree :
    ∃ m' : Memory,
      (∀ s, Runs .native twoWidenings (.start ⟨#[0, 0x3C, 0, 0xC0] ++ Array.replicate 24 7⟩) s →
        (∀ t, ¬ Step .native twoWidenings s t) →
          s.memory = m' ∧ ∀ i, s.progress i = .returned (.ok true)) ∧
      m'.readWord 4 4 = 0x3F800000 ∧ m'.readWord 4 8 = 0xC0000000 ∧
      m'.readWord 8 12 = 0x3FF0000000000000 ∧ m'.readWord 8 20 = 0xC000000000000000 := by
  have hvalid : ∀ i, (twoWidenings i).Valid := by
    intro i
    cases i <;> exact .inr (.inr ⟨Operand.isPlain_of_single_axis rfl,
      Operand.isPlain_of_single_axis rfl, by decide⟩)
  have hindependent : Independent twoWidenings := by
    intro i j hij
    cases i <;> cases j
    · exact absurd rfl hij
    · exact ⟨Set.Ico_disjoint_Ico.2 (by decide), Set.Ico_disjoint_Ico.2 (by decide),
        Set.Ico_disjoint_Ico.2 (by decide)⟩
    · exact ⟨Set.Ico_disjoint_Ico.2 (by decide), Set.Ico_disjoint_Ico.2 (by decide),
        Set.Ico_disjoint_Ico.2 (by decide)⟩
    · exact absurd rfl hij
  obtain ⟨m', horder, _, hruns⟩ := independent_calls_agree (p := .native) rfl hvalid hindependent
    ⟨#[0, 0x3C, 0, 0xC0] ++ Array.replicate 24 7⟩
  refine ⟨m', hruns, ?_⟩
  have hrun : Call.runAll .native ([false, true].map twoWidenings)
      ⟨#[0, 0x3C, 0, 0xC0] ++ Array.replicate 24 7⟩ = .ok ([true, true],
        ⟨#[0, 0x3C, 0, 0xC0, 0, 0, 0x80, 0x3F, 0, 0, 0, 0xC0, 0, 0, 0, 0, 0, 0, 0xF0, 0x3F,
          0, 0, 0, 0, 0, 0, 0, 0xC0]⟩) := by
    decide +kernel
  cases (horder [false, true] (by decide) (by decide)).symm.trans hrun
  decide

end Interleaving

end HalfPrecision
