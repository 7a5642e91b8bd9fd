import HalfPrecision.Proofs.Platform.Host
import Mathlib.Data.List.GetD

/-!
# Runs over a probe that may fail

A probe that fails some times before it answers makes as many requests fail. The request after them
keeps the answer and logs it, and from then on every request depends on that answer and on memory
alone: the probe is not called any more, and nothing else is logged.
-/

namespace HalfPrecision

namespace ProbeCell

theorem source_logRecord (p : Platform) : (logRecord p).source = .platform := by
  unfold logRecord
  split <;> rfl

theorem level_logRecord (p : Platform) :
    (logRecord p).level = if p.ieee754 then .debug else .error := by
  unfold logRecord
  split <;> rfl

end ProbeCell

/-- Whether two buffers in memory hold what a routine needs for one element. -/
structure Routine.HoldsOne (r : Routine) (target source : Buffer) (m : Memory) : Prop where
  target_isRow : target.IsRow
  target_writable : target.writable = true
  target_liesIn : target.LiesIn m
  target_size : r.target.size ≤ target.byteSize
  source_isRow : source.IsRow
  source_size : r.source.size ≤ source.byteSize

/-- What comes of a query that depends on a platform and memory alone; memory is `m` before it and
`m'` after it. -/
structure Query.AnsweredOn (p : Platform) (query : Query) (m : Memory)
    (answer : Except HostError Reply) (m' : Memory) : Prop where
  platform : query = .platform → answer = .ok (.platform p) ∧ m' = m
  ieee754 : query = .ieee754 → answer = .ok (.ieee754 p.ieee754) ∧ m' = m
  unavailable : ∀ r target source count, query = .convert r target source count →
    p.ieee754 = false → answer = .ok (.converted false) ∧ m' = m
  converted : ∀ r target source, query = .convert r (.buffer target) (.buffer source) 1 →
    p.ieee754 = true → r.HoldsOne target source m →
      answer = .ok (.converted true) ∧ r.Converted p target.start source.start 1 m m'

/-- A single element is converted from what it held, wherever the buffers lie. -/
theorem Routine.HoldsOne.run_guardedCall {r : Routine} {target source : Buffer} {m : Memory}
    (h : r.HoldsOne target source m) {p : Platform} (hp : p.ieee754 = true) :
    ∃ m', (r.guardedCall p (.buffer target) (.buffer source) 1).run m = (.ok true, m') ∧
      r.Converted p target.start source.start 1 m m' := by
  have htarget : 1 * r.target.size ≤ target.byteSize := by simpa using h.target_size
  have hsource : 1 * r.source.size ≤ source.byteSize := by simpa using h.source_size
  refine ⟨_, Routine.run_guardedCall hp h.target_isRow h.target_writable htarget h.source_isRow
    hsource m, ?_⟩
  apply converted_convertAll
  · have hend := h.target_liesIn.end_le h.target_isRow (r.target.size_pos.trans_le h.target_size)
    omega
  · intro i hi address _ _
    have hzero : i = 0 := by omega
    rw [hzero, Nat.zero_mul, Nat.add_zero]
    exact Nat.lt_or_ge address target.start

theorem Query.answeredOn_run (p : Platform) (query : Query) (host : Host) :
    let asked := (Hosted.onMemory (query.answerOn p)).run host
    query.AnsweredOn p host.memory asked.1 asked.2.memory := by
  refine ⟨?_, ?_, ?_, ?_⟩
  · rintro rfl
    exact ⟨rfl, rfl⟩
  · rintro rfl
    exact ⟨rfl, rfl⟩
  · rintro r target source count rfl hp
    rw [Query.answerOn, Routine.guardedCall, Routine.prepare_of_not_ieee754 hp]
    exact ⟨rfl, rfl⟩
  · rintro r target source rfl hp hone
    obtain ⟨m', hrun, hconverted⟩ := hone.run_guardedCall hp
    rw [Hosted.run_onMemory, Query.answerOn, Guarded.run_bind_of_ok hrun]
    exact ⟨rfl, hconverted⟩

section Script

variable {failures : List ProbeFailure} {later rest : List (Except ProbeFailure Platform)}
  {p : Platform} {memory : Memory} {earlier : List Query}

theorem ofScript_of_lt {n : Nat} (h : n < failures.length) :
    Probe.ofScript (failures.map .error ++ later) n = .error failures[n] := by
  rw [Probe.ofScript, List.getD_append _ _ _ _ (by simpa using h)]
  simp [List.getD, h]

theorem ofScript_length :
    Probe.ofScript (failures.map .error ++ .ok p :: rest) failures.length = .ok p := by
  rw [Probe.ofScript, List.getD_append_right _ _ _ _ (by simp)]
  simp

/-- As long as the probe fails, requests do nothing but call it. -/
theorem after_of_le (h : earlier.length ≤ failures.length) :
    (Host.ofScript (failures.map .error ++ later) memory).after earlier =
      { cell := { probe := .ofScript (failures.map .error ++ later), calls := earlier.length }
        memory } := by
  induction earlier using List.reverseRecOn with
  | nil => rfl
  | append_singleton earlier query ih =>
      rw [List.length_append, List.length_singleton] at h ⊢
      have hlt : earlier.length < failures.length := h
      rw [Host.after_concat, ih hlt.le, Host.ask_of_error query rfl (ofScript_of_lt hlt)]
      rfl

/-- Whether a cell has kept the answer of a script that comes after some failures. -/
structure Host.Settled (failures : List ProbeFailure) (p : Platform)
    (rest : List (Except ProbeFailure Platform)) (host : Host) : Prop where
  cell : host.cell =
    { probe := .ofScript (failures.map .error ++ .ok p :: rest)
      calls := failures.length + 1
      result := some p }
  log : host.log = [ProbeCell.logRecord p]

theorem Host.Settled.result {host : Host} (h : host.Settled failures p rest) :
    host.cell.result = some p := by
  rw [h.cell]

theorem Host.Settled.ask {host : Host} (h : host.Settled failures p rest) (query : Query) :
    (host.ask query).2.Settled failures p rest := by
  rw [Host.ask_of_result query h.result]
  exact ⟨h.cell, h.log⟩

/-- The request that reaches the first answer keeps it. -/
theorem settled_ask (h : earlier.length = failures.length) (query : Query) :
    (((Host.ofScript (failures.map .error ++ .ok p :: rest) memory).after earlier).ask
      query).2.Settled failures p rest := by
  rw [after_of_le h.le, h, Host.ask_of_ok query rfl ofScript_length]
  exact ⟨rfl, rfl⟩

theorem settled_after (h : failures.length < earlier.length) :
    ((Host.ofScript (failures.map .error ++ .ok p :: rest) memory).after earlier).Settled
      failures p rest := by
  induction earlier using List.reverseRecOn with
  | nil => exact absurd h (Nat.not_lt_zero _)
  | append_singleton earlier query ih =>
      rw [List.length_append, List.length_singleton] at h
      rw [Host.after_concat]
      -- The last request is the one that gets the first answer, or it comes after that one.
      rcases Nat.lt_or_eq_of_le (Nat.le_of_lt_succ h) with hlt | heq
      · exact (ih hlt).ask query
      · exact settled_ask heq.symm query

end Script

/-- A run of requests over a probe fails like the probe until that answers. The request that gets
the first answer keeps and logs it. It and all later ones come from that answer. -/
theorem Host.ask_after_ofScript (failures : List ProbeFailure)
    (later : List (Except ProbeFailure Platform)) (memory : Memory) (earlier : List Query)
    (query : Query) :
    let before := (Host.ofScript (failures.map .error ++ later) memory).after earlier
    let asked := before.ask query
    before.memory.bytes.size = memory.bytes.size ∧
      (earlier.length ≤ failures.length → before.cell.calls = earlier.length ∧ before.log = []) ∧
      (∀ h : earlier.length < failures.length,
        asked.1 = .error (.probeFailed failures[earlier.length]) ∧
          asked.2.memory = before.memory) ∧
      ∀ p rest, later = .ok p :: rest →
        before.cell.calls = min earlier.length (failures.length + 1) ∧
        before.log =
          (if earlier.length ≤ failures.length then [] else [ProbeCell.logRecord p]) ∧
        (ProbeCell.logRecord p).source = .platform ∧
        (ProbeCell.logRecord p).level = (if p.ieee754 then .debug else .error) ∧
        (failures.length ≤ earlier.length →
          query.AnsweredOn p before.memory asked.1 asked.2.memory) := by
  refine ⟨Host.size_after _ earlier, ?_, ?_, ?_⟩
  · intro h
    rw [after_of_le h]
    exact ⟨rfl, rfl⟩
  · intro h
    rw [after_of_le h.le, Host.ask_of_error query rfl (ofScript_of_lt h)]
    exact ⟨rfl, rfl⟩
  · rintro p rest rfl
    refine ⟨?_, ?_, ?_, ?_, ?_⟩
    · rcases Nat.lt_or_ge failures.length earlier.length with hlt | hle
      · rw [(settled_after hlt).cell]
        exact (Nat.min_eq_right hlt).symm
      · rw [after_of_le hle]
        exact (Nat.min_eq_left (Nat.le_succ_of_le hle)).symm
    · split
      next hle => rw [after_of_le hle]
      next hlt => exact (settled_after (not_le.1 hlt)).log
    · exact ProbeCell.source_logRecord p
    · exact ProbeCell.level_logRecord p
    · intro h
      rcases Nat.lt_or_eq_of_le h with hlt | heq
      · rw [Host.ask_of_result query (settled_after hlt).result]
        exact query.answeredOn_run p _
      · rw [after_of_le heq.ge, ← heq, Host.ask_of_ok query rfl ofScript_length]
        exact query.answeredOn_run p _

/-- After a failure and an answer the double minus two, its high word first, is converted without a
further call. -/
theorem Host.ask_after_ofScript_busy :
    let host := Host.ofScript
      ([⟨"busy"⟩].map .error ++ [.ok { ieee754 := true, highWord := 0 }, .error ⟨"gone"⟩])
      ⟨#[0, 0, 0, 0xC0, 0, 0, 0, 0, 7, 7]⟩
    let query := Query.convert .doublesToHalves
      (.buffer { start := 8, itemSize := 2, axes := [], writable := true })
      (.buffer { start := 0, itemSize := 8, axes := [⟨1, 8⟩], writable := false }) 1
    (host.ask query).1 = .error (.probeFailed ⟨"busy"⟩) ∧
      (host.ask query).2.memory = host.memory ∧
      (host.after [query, .ieee754]).cell.calls = 2 ∧
      ((host.after [query, .ieee754]).ask query).1 = .ok (.converted true) ∧
      ((host.after [query, .ieee754]).ask query).2.memory.readWord 2 8 = 0xC000 := by
  intro host query
  obtain ⟨_, _, hfails, _⟩ := Host.ask_after_ofScript [⟨"busy"⟩]
    [.ok { ieee754 := true, highWord := 0 }, .error ⟨"gone"⟩]
    ⟨#[0, 0, 0, 0xC0, 0, 0, 0, 0, 7, 7]⟩ [] query
  obtain ⟨_, _, _, hanswers⟩ := Host.ask_after_ofScript [⟨"busy"⟩]
    [.ok { ieee754 := true, highWord := 0 }, .error ⟨"gone"⟩]
    ⟨#[0, 0, 0, 0xC0, 0, 0, 0, 0, 7, 7]⟩ [query, .ieee754] query
  obtain ⟨hcalls, _, _, _, hanswered⟩ := hanswers _ _ rfl
  obtain ⟨hdone, hconverted⟩ := (hanswered (by decide)).converted _ _ _ rfl rfl
    ⟨by decide, rfl, by decide, by decide, by decide, by decide⟩
  obtain ⟨hfailure, hkept⟩ := hfails (by decide)
  have hmemory : (host.after [query, .ieee754]).memory = host.memory := by decide +kernel
  have hread : ∀ m', Routine.doublesToHalves.Converted { ieee754 := true, highWord := 0 } 8 0 1
      host.memory m' → m'.readWord 2 8 = 0xC000 := by
    intro m' h
    exact (h.elements 0 (by decide)).trans (by decide)
  rw [hmemory] at hconverted
  have hhalf := hread _ hconverted
  exact ⟨hfailure, hkept, hcalls, hdone, by simpa only [host] using hhalf⟩

end HalfPrecision
