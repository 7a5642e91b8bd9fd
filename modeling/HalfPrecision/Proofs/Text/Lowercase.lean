import HalfPrecision.Text.Lowercase
import Mathlib.Data.List.Infix

/-!
# Marks in lower case

Besides themselves only the capital X has a minus sign, a zero or an x as its lower case. So whether
the lower case of a text starts with such marks is seen from the text itself, whatever its other
characters come to.
-/

namespace HalfPrecision.Text

/-- The characters by which the start of a text in lower case is recognised. -/
def IsMark (d : Char) : Prop := d = '-' ∨ d = '0' ∨ d = 'x'

/-- Whether a mark is the lower case of a character. -/
def LowersTo (c mark : Char) : Prop := c = mark ∨ c = 'X' ∧ mark = 'x'

instance (d : Char) : Decidable (IsMark d) := inferInstanceAs (Decidable (_ ∨ _))

theorem IsMark.toNat_mem {d : Char} (h : IsMark d) : d.toNat ∈ [0x2D, 0x30, 0x78] := by
  rcases h with rfl | rfl | rfl <;> decide

/-- No run of letters beyond those of ASCII has a mark among its lower case. -/
theorem lowercaseRuns_tail : ∀ run ∈ lowercaseRuns.tail, ∀ mark ∈ [0x2D, 0x30, 0x78],
    ¬ (run.first + run.shift ≤ (mark : Nat) ∧ (mark : Nat) ≤ run.last + run.shift) := by
  decide +kernel

theorem eq_toNat_of_ofNat_eq {n : Nat} {d : Char} (h : Char.ofNat n = d) (hd : d.toNat ≠ 0) :
    n = d.toNat := by
  by_cases hvalid : n.isValidChar
  · rw [← h, Char.ofNat, dif_pos hvalid]
    rfl
  · refine absurd ?_ hd
    rw [← h, Char.ofNat, dif_neg hvalid]
    rfl

theorem CaseRun.le_of_contains {run : CaseRun} {c : Char} (h : run.contains c = true) :
    run.first ≤ c.toNat ∧ c.toNat ≤ run.last := by
  simp only [contains, Bool.and_eq_true, decide_eq_true_eq] at h
  exact h.1

/-- A mark is the lower case of a letter in a run only if that is the capital X. -/
theorem eq_of_mem_lowercaseRuns {run : CaseRun} {c d : Char} (hd : IsMark d)
    (hmem : run ∈ lowercaseRuns) (hcontains : run.contains c = true)
    (hlower : Char.ofNat (c.toNat + run.shift).toNat = d) : c = 'X' ∧ d = 'x' := by
  have hmark := hd.toNat_mem
  obtain ⟨hfirst, hlast⟩ := CaseRun.le_of_contains hcontains
  have hpos : d.toNat ≠ 0 := by
    intro hzero
    rw [hzero] at hmark
    exact absurd hmark (by decide)
  have hcode := eq_toNat_of_ofNat_eq hlower hpos
  rcases List.mem_cons.1 (show run ∈ _ :: lowercaseRuns.tail from hmem) with rfl | htail
  · have hrange : (c.toNat : Int) + 32 = d.toNat := by
      simp only at hcode
      omega
    simp only at hfirst hlast
    rcases hd with rfl | rfl | rfl
    · change (c.toNat : Int) + 32 = 45 at hrange
      omega
    · change (c.toNat : Int) + 32 = 48 at hrange
      omega
    · refine ⟨Char.toNat_inj.1 ?_, rfl⟩
      change (c.toNat : Int) + 32 = 120 at hrange
      change c.toNat = 88
      omega
  · exact absurd ⟨by omega, by omega⟩ (lowercaseRuns_tail run htail d.toNat hmark)

theorem lowerChar_ne_nil (c : Char) : lowerChar c ≠ [] := by
  unfold lowerChar
  split
  · exact List.cons_ne_nil _ _
  · split <;> exact List.cons_ne_nil _ _

theorem lowerChar_eq_cons_iff {c d : Char} (hd : IsMark d) (rest : List Char) :
    lowerChar c = d :: rest ↔ LowersTo c d ∧ rest = [] := by
  constructor
  · intro h
    unfold lowerChar at h
    split at h
    · obtain rfl := (List.cons.inj h).1
      exact absurd hd (by decide)
    · split at h
      next run hfind =>
        have hmem := List.mem_of_find?_eq_some hfind
        have hcontains := List.find?_some (p := fun run : CaseRun => run.contains c) hfind
        obtain ⟨hlower, rfl⟩ := List.cons.inj h
        exact ⟨.inr (eq_of_mem_lowercaseRuns hd hmem hcontains hlower), rfl⟩
      next =>
        obtain ⟨hsame, rfl⟩ := List.cons.inj h
        exact ⟨.inl hsame, rfl⟩
  · rintro ⟨rfl | ⟨rfl, rfl⟩, rfl⟩
    · rcases hd with rfl | rfl | rfl <;> decide +kernel
    · decide +kernel

/-- A text whose lower case starts with a mark starts with a character of that lower case. -/
theorem lowerAfter_eq_cons_iff {before s t : List Char} {d : Char} (hd : IsMark d) :
    lowerAfter before s = d :: t ↔
      ∃ c rest, s = c :: rest ∧ LowersTo c d ∧ lowerAfter (c :: before) rest = t := by
  cases s with
  | nil => simp [lowerAfter]
  | cons c rest =>
      have hexists : (∃ c' rest', c :: rest = c' :: rest' ∧ LowersTo c' d ∧
          lowerAfter (c' :: before) rest' = t) ↔
            LowersTo c d ∧ lowerAfter (c :: before) rest = t := by
        simp
      rw [hexists, lowerAfter]
      by_cases hsigma : c.toNat = 0x3A3
      · have hfinal : Char.ofNat 0x3C2 ≠ d := by
          rintro rfl
          exact absurd hd (by decide)
        have hother : Char.ofNat 0x3C3 ≠ d := by
          rintro rfl
          exact absurd hd (by decide)
        have hlower : ¬ LowersTo c d := by
          rintro (rfl | ⟨rfl, _⟩)
          · have hmark := hd.toNat_mem
            rw [hsigma] at hmark
            exact absurd hmark (by decide)
          · exact absurd hsigma (by decide)
        simp only [if_pos hsigma, hlower, false_and, iff_false]
        split <;> simp [hfinal, hother]
      · simp only [if_neg hsigma, List.append_eq_cons_iff, lowerChar_ne_nil, false_and, false_or,
          lowerChar_eq_cons_iff hd]
        constructor
        · rintro ⟨_, ⟨hlower, rfl⟩, rfl⟩
          exact ⟨hlower, rfl⟩
        · rintro ⟨hlower, rfl⟩
          exact ⟨[], ⟨hlower, rfl⟩, rfl⟩

/-- Marks at the start of a text in lower case, one by one. -/
theorem cons_prefix_lowerAfter_iff {before s marks : List Char} {d : Char} (hd : IsMark d) :
    d :: marks <+: lowerAfter before s ↔
      ∃ c rest, s = c :: rest ∧ LowersTo c d ∧ marks <+: lowerAfter (c :: before) rest := by
  rw [List.cons_prefix_iff]
  constructor
  · rintro ⟨t, ht, hmarks⟩
    obtain ⟨c, rest, hs, hc, rfl⟩ := (lowerAfter_eq_cons_iff hd).1 ht
    exact ⟨c, rest, hs, hc, hmarks⟩
  · rintro ⟨c, rest, hs, hc, hmarks⟩
    exact ⟨_, (lowerAfter_eq_cons_iff hd).2 ⟨c, rest, hs, hc, rfl⟩, hmarks⟩

end HalfPrecision.Text
