import HalfPrecision.Proofs.Layout.Midpoint

/-!
# Nearest magnitudes

A magnitude is nearest to a number if no other is nearer, whichever way ties go. The two rules for
ties only choose between the neighbours of a midpoint: away from zero to the greater one, or to the
even one. A number that belongs to a magnitude has no other nearest one, and every number up to
infinity is at most half a step away from its own.
-/

namespace HalfPrecision.Layout

variable {L : Layout} {v : Rat} {magnitude other : Nat}

theorem IsNearestEven.isNearest (h : L.IsNearestEven v magnitude) : L.IsNearest v magnitude :=
  ⟨h.1, fun other hother => (h.2 other hother).1⟩

/-- What is not below a magnitude is not nearest to a lower one. -/
theorem IsNearest.le_of_magnitudeValue_le (h : L.IsNearest v magnitude) (hother : other ≤ L.infinity)
    (hle : L.magnitudeValue other ≤ v) : other ≤ magnitude := by
  by_contra hlt
  have hmid := ((L.isNearest_iff _ _).1 h).2.2 (by omega)
  exact (L.midpoint_lt_magnitudeValue (not_le.1 hlt)).not_ge (hle.trans hmid)

/-- What is not above a magnitude is not nearest to a greater one. -/
theorem IsNearest.le_of_le_magnitudeValue (h : L.IsNearest v magnitude)
    (hle : v ≤ L.magnitudeValue other) : magnitude ≤ other := by
  by_contra hlt
  have hmid := ((L.isNearest_iff _ _).1 h).2.1 other (not_le.1 hlt)
  exact (L.magnitudeValue_lt_midpoint other).not_ge (hmid.trans hle)

/-- The value of a magnitude is nearest to that one alone. -/
theorem IsNearest.eq_of_magnitudeValue (h : L.IsNearest (L.magnitudeValue other) magnitude)
    (hother : other ≤ L.infinity) : magnitude = other :=
  Nat.le_antisymm (h.le_of_le_magnitudeValue le_rfl) (h.le_of_magnitudeValue_le hother le_rfl)

theorem isNearest_magnitudeValue (hle : magnitude ≤ L.infinity) :
    L.IsNearest (L.magnitudeValue magnitude) magnitude :=
  (isNearestAway_magnitudeValue hle).isNearest

/-- The nearest magnitudes of a midpoint are its neighbours. -/
theorem IsNearest.eq_or_eq_of_midpoint (h : L.IsNearest (L.midpoint other) magnitude)
    (hlt : other < L.infinity) : magnitude = other ∨ magnitude = other + 1 := by
  have hlow := h.le_of_magnitudeValue_le hlt.le (L.magnitudeValue_lt_midpoint other).le
  have hhigh := h.le_of_le_magnitudeValue (L.midpoint_lt_magnitudeValue (Nat.lt_succ_self other)).le
  rw [Nat.succ_eq_add_one] at hhigh
  omega

/-- Two magnitudes are equally near only to the midpoint of neighbours. -/
theorem IsNearest.exists_eq_midpoint (h : L.IsNearest v magnitude) (hother : other ≤ L.infinity)
    (hne : other ≠ magnitude)
    (htie : |L.magnitudeValue other - v| = |L.magnitudeValue magnitude - v|) :
    ∃ lower < L.infinity, v = L.midpoint lower := by
  obtain ⟨hle, hlow, hhigh⟩ := (L.isNearest_iff _ _).1 h
  rcases Nat.lt_or_gt_of_ne hne with hlt | hgt
  · refine ⟨other, hlt.trans_le hle, le_antisymm ?_ (hlow other hlt)⟩
    have hvalue := L.magnitudeValue_strictMono hlt
    obtain ⟨below, rfl⟩ := Nat.exists_eq_succ_of_ne_zero (Nat.ne_zero_of_lt hlt)
    have hmid := hlow below (Nat.lt_succ_self _)
    have hclose := (abs_sub_le_abs_sub_iff hvalue v).1 htie.le
    have hbelow : L.magnitudeValue below ≤ L.magnitudeValue other := by
      rw [midpoint] at hmid
      rw [Nat.succ_eq_add_one] at hclose
      linarith
    obtain rfl : below = other :=
      Nat.le_antisymm (L.magnitudeValue_strictMono.le_iff_le.1 hbelow) (Nat.le_of_lt_succ hlt)
    exact hclose
  · refine ⟨magnitude, hgt.trans_le hother, le_antisymm (hhigh (hgt.trans_le hother)) ?_⟩
    have hvalue := L.magnitudeValue_strictMono hgt
    have hmid := hhigh (hgt.trans_le hother)
    have hclose := (abs_sub_le_abs_sub_iff' hvalue v).1 htie.le
    have habove : L.magnitudeValue other ≤ L.magnitudeValue (magnitude + 1) := by
      rw [midpoint] at hmid
      linarith
    obtain rfl : other = magnitude + 1 :=
      Nat.le_antisymm (L.magnitudeValue_strictMono.le_iff_le.1 habove) hgt
    exact hclose

/-- Rounding to even is rounding to nearest that gives an even magnitude for every midpoint. -/
theorem isNearestEven_iff :
    L.IsNearestEven v magnitude ↔ L.IsNearest v magnitude ∧
      ∀ lower < L.infinity, v = L.midpoint lower → magnitude % 2 = 0 := by
  constructor
  · intro h
    refine ⟨h.isNearest, ?_⟩
    rintro lower hlower rfl
    have hnext := L.magnitudeValue_strictMono (Nat.lt_succ_self lower)
    rw [Nat.succ_eq_add_one] at hnext
    have htie : |L.magnitudeValue lower - L.midpoint lower| =
        |L.magnitudeValue (lower + 1) - L.midpoint lower| :=
      le_antisymm ((abs_sub_le_abs_sub_iff hnext _).2 le_rfl)
        ((abs_sub_le_abs_sub_iff' hnext _).2 le_rfl)
    rcases h.isNearest.eq_or_eq_of_midpoint hlower with rfl | rfl
    · exact ((h.2 (magnitude + 1) hlower).2 htie.symm).resolve_left (Nat.succ_ne_self _)
    · exact ((h.2 lower hlower.le).2 htie).resolve_left (Nat.succ_ne_self _).symm
  · rintro ⟨h, heven⟩
    refine ⟨h.1, fun other hother => ⟨h.2 other hother, fun htie => ?_⟩⟩
    by_cases hne : other = magnitude
    · exact .inl hne
    · obtain ⟨lower, hlower, hmid⟩ := h.exists_eq_midpoint hother hne htie
      exact .inr (heven lower hlower hmid)

theorem isNearestEven_magnitudeValue (hle : magnitude ≤ L.infinity) :
    L.IsNearestEven (L.magnitudeValue magnitude) magnitude := by
  refine isNearestEven_iff.2 ⟨isNearest_magnitudeValue hle, ?_⟩
  intro lower hlower hmid
  rcases Nat.lt_or_ge lower magnitude with hlt | hge
  · exact absurd hmid (L.midpoint_lt_magnitudeValue hlt).ne'
  · have hvalue := L.magnitudeValue_strictMono.monotone hge
    exact absurd hmid (hvalue.trans_lt (L.magnitudeValue_lt_midpoint lower)).ne

/-- From the value of infinity on every number is rounded to infinity. -/
theorem isNearestEven_infinity (h : L.magnitudeValue L.infinity ≤ v) :
    L.IsNearestEven v L.infinity := by
  refine isNearestEven_iff.2 ⟨(isNearestAway_infinity h).isNearest, ?_⟩
  intro lower hlower hmid
  exact absurd hmid ((L.midpoint_lt_magnitudeValue hlower).trans_le h).ne'

/-- Up to the half of the least denormal every number is rounded to zero. -/
theorem isNearestEven_zero (h : v ≤ L.midpoint 0) : L.IsNearestEven v 0 := by
  refine isNearestEven_iff.2 ⟨(L.isNearest_iff _ _).2 ⟨Nat.zero_le _, ?_, fun _ => h⟩, ?_⟩
  · intro lower hlower
    exact absurd hlower (Nat.not_lt_zero lower)
  · intro _ _ _
    rfl

/-- A midpoint goes to its greater neighbour away from zero. -/
theorem isNearestAway_midpoint (hlt : magnitude < L.infinity) :
    L.IsNearestAway (L.midpoint magnitude) (magnitude + 1) :=
  (L.isNearestAway_iff _ _).2 ⟨hlt,
    fun _ hlower => L.midpoint_strictMono.monotone (Nat.le_of_lt_succ hlower),
    fun _ => L.midpoint_strictMono (Nat.lt_succ_self magnitude)⟩

/-- Every number has a nearest magnitude. -/
theorem exists_isNearestAway (L : Layout) (v : Rat) : ∃ magnitude, L.IsNearestAway v magnitude := by
  have hexists : ∃ magnitude, magnitude < L.infinity → v < L.midpoint magnitude :=
    ⟨L.infinity, fun hlt => absurd hlt (Nat.lt_irrefl _)⟩
  classical
  refine ⟨Nat.find hexists, (L.isNearestAway_iff _ _).2 ⟨?_, ?_, Nat.find_spec hexists⟩⟩
  · exact Nat.find_min' hexists fun hlt => absurd hlt (Nat.lt_irrefl _)
  · intro lower hlower
    have hnot := Nat.find_min hexists hlower
    push Not at hnot
    exact hnot.2

/-- The step to the next magnitude is at most a unit and a last place of the significand. -/
theorem magnitudeValue_succ_le (L : Layout) (magnitude : Nat) :
    L.magnitudeValue (magnitude + 1) - L.magnitudeValue magnitude ≤
      L.unit + L.magnitudeValue magnitude / L.hiddenBit := by
  have hhidden : (0 : Rat) < L.hiddenBit := Nat.cast_pos.2 L.hiddenBit_pos
  obtain ⟨e, m, hm, rfl⟩ : ∃ e m, m < L.hiddenBit ∧ magnitude = e * L.hiddenBit + m :=
    ⟨_, _, Nat.mod_lt _ L.hiddenBit_pos, (Nat.div_add_mod' magnitude L.hiddenBit).symm⟩
  have hstep : L.magnitudeValue (e * L.hiddenBit + m + 1) -
      L.magnitudeValue (e * L.hiddenBit + m) = L.spacing e := by
    rw [Nat.add_assoc, L.magnitudeValue_add e hm, L.magnitudeValue_add e hm.le]
    push_cast
    ring
  rw [hstep]
  rcases Nat.eq_zero_or_pos e with rfl | he
  · have hunit : L.spacing 0 = L.unit := by rw [spacing, Nat.zero_sub, pow_zero, one_mul]
    rw [hunit, le_add_iff_nonneg_right]
    exact div_nonneg (L.magnitudeValue_nonneg _) hhidden.le
  · have hspacing : L.spacing e ≤ L.magnitudeValue (e * L.hiddenBit + m) / L.hiddenBit := by
      rw [le_div_iff₀ hhidden, mul_comm, ← L.magnitudeValue_mul_hiddenBit he]
      exact L.magnitudeValue_strictMono.monotone (Nat.le_add_right _ _)
    exact hspacing.trans (le_add_of_nonneg_left L.unit_pos.le)

/-- A nearest magnitude is at most half a unit and half a last place of the significand away. -/
theorem IsNearest.abs_sub_le (h : L.IsNearest v magnitude) (hnonneg : 0 ≤ v)
    (hle : v ≤ L.magnitudeValue L.infinity) :
    |L.magnitudeValue magnitude - v| ≤ (L.unit + v / L.hiddenBit) / 2 := by
  have hhidden : (0 : Rat) < L.hiddenBit := Nat.cast_pos.2 L.hiddenBit_pos
  obtain ⟨hinfinity, hlow, hhigh⟩ := (L.isNearest_iff v magnitude).1 h
  have hgap {lower : Nat} (hlower : L.magnitudeValue lower ≤ v) :
      L.magnitudeValue (lower + 1) - L.magnitudeValue lower ≤ L.unit + v / L.hiddenBit := by
    have hdiv := div_le_div_of_nonneg_right hlower hhidden.le
    have hnext := L.magnitudeValue_succ_le lower
    linarith
  rcases le_or_gt (L.magnitudeValue magnitude) v with hbelow | habove
  · rw [abs_sub_comm, abs_of_nonneg (sub_nonneg.2 hbelow)]
    rcases Nat.lt_or_eq_of_le hinfinity with hlt | rfl
    · have hmid := hhigh hlt
      have hnext := hgap hbelow
      rw [midpoint] at hmid
      linarith
    · have hunit := L.unit_pos
      have hdiv := div_nonneg hnonneg hhidden.le
      linarith
  · rw [abs_of_pos (sub_pos.2 habove)]
    obtain ⟨lower, rfl⟩ : ∃ lower, magnitude = lower + 1 := by
      refine Nat.exists_eq_succ_of_ne_zero ?_
      rintro rfl
      rw [magnitudeValue_zero] at habove
      exact habove.not_ge hnonneg
    have hmid := hlow lower (Nat.lt_succ_self lower)
    have hnext := hgap ((L.magnitudeValue_lt_midpoint lower).le.trans hmid)
    rw [midpoint] at hmid
    linarith

end HalfPrecision.Layout
