import HalfPrecision.Batch.Interleaving
import HalfPrecision.Proofs.Batch.Guarded

/-!
# A call that nothing disturbs

The steps of a call that runs alone come to what the call does as a whole: word by word its elements
are read, converted and written, and then it returns.
-/

namespace HalfPrecision

open Interleaving

namespace Call

variable (c : Call) (p : Platform)

/-- Whether steps of a call lead from one point to another. -/
def Advances : Progress × Memory → Progress × Memory → Prop :=
  Relation.ReflTransGen fun before later => c.advance p before.1 before.2 = some later

variable {c p} {out src : Words} {stage next : Stage} {i pattern : Nat} {m m' : Memory}

/-- A step of a loop whose access succeeds. -/
theorem advance_of_run {action : Guarded Stage}
    (haction : loopAction? c.routine p c.count.toNat out src stage = some action)
    (hrun : action.run m = (.ok next, m')) :
    c.advance p (.looping out src stage) m = some (.looping out src next, m') := by
  rw [advance, action?, haction, Option.map_some, Guarded.run_bind, hrun]
  rfl

/-- An element is read by the steps for its words. -/
theorem advances_fetch (hi : i < c.count.toNat)
    (h : (c.routine.source.fetch p src i).run m = (.ok pattern, m')) :
    c.Advances p (.looping out src (.next i), m)
      (.looping out src (.converted i (c.routine.convert pattern)), m') := by
  obtain ⟨routine, target, source, count⟩ := c
  cases routine with
  | singlesToHalves | halvesToSingles | halvesToDoubles =>
      exact .single (advance_of_run (if_pos hi) (Guarded.run_bind_of_ok h))
  | doublesToHalves =>
      obtain ⟨high, m₁, hhigh, hrest⟩ := Guarded.run_bind_eq_ok h
      obtain ⟨low, m₂, hlow, hpattern⟩ := Guarded.run_bind_eq_ok hrest
      cases hpattern
      refine .head (advance_of_run (if_pos hi) (Guarded.run_bind_of_ok hhigh)) ?_
      exact .single (advance_of_run rfl (Guarded.run_bind_of_ok hlow))

/-- An element is written by the steps for its words. -/
theorem advances_assign (h : (c.routine.target.assign p out i pattern).run m = (.ok (), m')) :
    c.Advances p (.looping out src (.converted i pattern), m)
      (.looping out src (.next (i + 1)), m') := by
  obtain ⟨routine, target, source, count⟩ := c
  cases routine with
  | singlesToHalves | doublesToHalves | halvesToSingles =>
      exact .single (advance_of_run rfl (Guarded.run_bind_of_ok h))
  | halvesToDoubles =>
      obtain ⟨_, m₁, hhigh, hlow⟩ := Guarded.run_bind_eq_ok h
      refine .head (advance_of_run rfl (Guarded.run_bind_of_ok hhigh)) ?_
      exact .single (advance_of_run rfl (Guarded.run_bind_of_ok hlow))

variable (hout : out.HoldsElements c.routine.target c.count.toNat)
  (hwritable : out.writable = true) (hsrc : src.HoldsElements c.routine.source c.count.toNat)

include hout hwritable hsrc

theorem advances_element (hi : i < c.count.toNat) (m : Memory) :
    c.Advances p (.looping out src (.next i), m)
      (.looping out src (.next (i + 1)), c.routine.convertAt p out.start src.start m i) := by
  refine (advances_fetch hi (Element.run_fetch p hsrc hi m)).trans ?_
  exact advances_assign (Element.run_assign p hout hwritable hi (c.routine.convert_lt _) m)

theorem advances_elements (m : Memory) {n : Nat} (hn : n ≤ c.count.toNat) :
    c.Advances p (.looping out src (.next 0), m)
      (.looping out src (.next n), c.routine.convertAll p out.start src.start n m) := by
  induction n with
  | zero => exact .refl
  | succ n ih =>
      rw [Routine.convertAll_succ]
      exact (ih (Nat.le_of_succ_le hn)).trans (advances_element hout hwritable hsrc hn _)

theorem advances_loop (m : Memory) :
    c.Advances p (.looping out src (.next 0), m)
      (.returned (.ok true), c.routine.convertAll p out.start src.start c.count.toNat m) := by
  refine (advances_elements hout hwritable hsrc m le_rfl).tail ?_
  simp [advance, action?, loopAction?, Progress.after]

omit hout hwritable hsrc

theorem advance_checkAction {next : Progress} (hrun : (c.checkAction p).run m = (.ok next, m')) :
    c.advance p .called m = some (next, m') := by
  rw [advance, action?, Option.map_some, hrun]
  rfl

/-- A call goes through if its operands are fit, or one of them is absent. -/
def Valid (c : Call) : Prop :=
  c.target = .absent ∨ c.source = .absent ∨
    c.target.IsPlain ∧ c.source.IsPlain ∧ ¬ c.routine.MustRefuse c.target c.source c.count

/-- A call that goes through comes to its end by steps. -/
theorem Valid.advances_run (hvalid : c.Valid) (hp : p.ieee754 = true) (m : Memory) :
    ∃ m', c.run p m = .ok (true, m') ∧
      c.Advances p (.called, m) (.returned (.ok true), m') := by
  by_cases habsent : c.target = .absent ∨ c.source = .absent
  · have hprepare := Routine.prepare_of_absent (r := c.routine) (n := c.count) hp habsent
    refine ⟨m, ?_, .single (advance_checkAction ?_)⟩
    · rw [run, Routine.call_eq_prepare, hprepare]
      rfl
    · rw [checkAction, hprepare]
      rfl
  · obtain ⟨htarget, hsource⟩ := not_or.1 habsent
    obtain ⟨hplain, hplain', hfit⟩ := (hvalid.resolve_left htarget).resolve_left hsource
    obtain ⟨out, src, hprepare, hout, hwritable, hsrc⟩ :=
      Routine.exists_prepare_eq_rows hp htarget hsource hplain hplain' hfit
    refine ⟨c.routine.convertAll p out.start src.start c.count.toNat m, ?_, ?_⟩
    · rw [run, Routine.call_eq_prepare, hprepare]
      rfl
    · refine .head (advance_checkAction ?_) (advances_loop hout hwritable hsrc m)
      rw [checkAction, hprepare]
      rfl

end Call

end HalfPrecision
