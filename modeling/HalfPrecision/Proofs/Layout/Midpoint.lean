import HalfPrecision.Proofs.Layout.Magnitude
import Mathlib.Tactic.Linarith
import Mathlib.Tactic.Positivity
import Mathlib.Tactic.Ring

/-!
# Midpoints

The numbers for which a magnitude is the nearest one reach from the midpoint below it, which is
included, to the midpoint above it, which is not. Nothing lies below zero, and infinity takes all
that lies above its last midpoint.
-/

namespace HalfPrecision.Layout

/-- Of two numbers the lower one is at least as near as the upper one up to their midpoint. -/
theorem abs_sub_le_abs_sub_iff {low high : Rat} (h : low < high) (v : Rat) :
    |low - v| ≤ |high - v| ↔ v ≤ (low + high) / 2 := by
  rcases abs_cases (low - v) with ⟨hlow, _⟩ | ⟨hlow, _⟩ <;>
    rcases abs_cases (high - v) with ⟨hhigh, _⟩ | ⟨hhigh, _⟩ <;>
    rw [hlow, hhigh] <;> constructor <;> intro <;> linarith

/-- From the midpoint on the upper one is at least as near. -/
theorem abs_sub_le_abs_sub_iff' {low high : Rat} (h : low < high) (v : Rat) :
    |high - v| ≤ |low - v| ↔ (low + high) / 2 ≤ v := by
  rcases abs_cases (low - v) with ⟨hlow, _⟩ | ⟨hlow, _⟩ <;>
    rcases abs_cases (high - v) with ⟨hhigh, _⟩ | ⟨hhigh, _⟩ <;>
    rw [hlow, hhigh] <;> constructor <;> intro <;> linarith

variable (L : Layout)

/-- The number halfway between a magnitude and the next one. -/
def midpoint (magnitude : Nat) : Rat :=
  (L.magnitudeValue magnitude + L.magnitudeValue (magnitude + 1)) / 2

theorem magnitudeValue_lt_midpoint (magnitude : Nat) :
    L.magnitudeValue magnitude < L.midpoint magnitude := by
  have := L.magnitudeValue_strictMono (Nat.lt_succ_self magnitude)
  rw [Nat.succ_eq_add_one] at this
  rw [midpoint]
  linarith

theorem midpoint_lt_magnitudeValue {magnitude greater : Nat} (h : magnitude < greater) :
    L.midpoint magnitude < L.magnitudeValue greater := by
  have hnext := L.magnitudeValue_strictMono (Nat.lt_succ_self magnitude)
  have hgreater := L.magnitudeValue_strictMono.monotone (Nat.succ_le_of_lt h)
  rw [Nat.succ_eq_add_one] at hnext hgreater
  rw [midpoint]
  linarith

theorem midpoint_strictMono : StrictMono L.midpoint := fun _ _ h =>
  (L.midpoint_lt_magnitudeValue h).trans (L.magnitudeValue_lt_midpoint _)

/-- A magnitude that no other one is nearer than. -/
def IsNearest (v : Rat) (magnitude : Nat) : Prop :=
  magnitude ≤ L.infinity ∧
    ∀ other ≤ L.infinity, |L.magnitudeValue magnitude - v| ≤ |L.magnitudeValue other - v|

variable {L} in
theorem IsNearestAway.isNearest {v : Rat} {magnitude : Nat} (h : L.IsNearestAway v magnitude) :
    L.IsNearest v magnitude :=
  ⟨h.1, fun other hother => (h.2 other hother).1⟩

/-- A nearest magnitude lies between the midpoints on both sides of the number. -/
theorem isNearest_iff (v : Rat) (magnitude : Nat) :
    L.IsNearest v magnitude ↔ magnitude ≤ L.infinity ∧
      (∀ lower < magnitude, L.midpoint lower ≤ v) ∧
        (magnitude < L.infinity → v ≤ L.midpoint magnitude) := by
  constructor
  · rintro ⟨hle, hnearest⟩
    refine ⟨hle, ?_, ?_⟩
    · intro lower hlower
      have hvalue := L.magnitudeValue_strictMono (Nat.lt_succ_self lower)
      have hnext := L.magnitudeValue_strictMono.monotone (Nat.succ_le_of_lt hlower)
      have hnear := hnearest lower (by omega)
      rw [abs_sub_le_abs_sub_iff' (hvalue.trans_le hnext)] at hnear
      rw [midpoint]
      linarith
    · intro hlt
      have hvalue := L.magnitudeValue_strictMono (Nat.lt_succ_self magnitude)
      exact (abs_sub_le_abs_sub_iff hvalue v).1 (hnearest (magnitude + 1) hlt)
  · rintro ⟨hle, hlow, hhigh⟩
    refine ⟨hle, ?_⟩
    intro other hother
    rcases Nat.lt_trichotomy other magnitude with hlt | rfl | hgt
    · obtain ⟨below, rfl⟩ := Nat.exists_eq_succ_of_ne_zero (Nat.ne_zero_of_lt hlt)
      have hmid := hlow below (Nat.lt_succ_self _)
      have hvalue := L.magnitudeValue_strictMono.monotone (Nat.le_of_lt_succ hlt)
      rw [abs_sub_le_abs_sub_iff' (L.magnitudeValue_strictMono hlt)]
      rw [midpoint] at hmid
      rw [Nat.succ_eq_add_one]
      linarith
    · exact le_rfl
    · have hmid := hhigh (hgt.trans_le hother)
      have hvalue := L.magnitudeValue_strictMono.monotone (Nat.succ_le_of_lt hgt)
      rw [abs_sub_le_abs_sub_iff (L.magnitudeValue_strictMono hgt)]
      rw [midpoint] at hmid
      rw [Nat.succ_eq_add_one] at hvalue
      linarith

/-- With ties going away from zero, the midpoint above belongs to the next magnitude. -/
theorem isNearestAway_iff (v : Rat) (magnitude : Nat) :
    L.IsNearestAway v magnitude ↔ magnitude ≤ L.infinity ∧
      (∀ lower < magnitude, L.midpoint lower ≤ v) ∧
        (magnitude < L.infinity → v < L.midpoint magnitude) := by
  constructor
  · intro h
    obtain ⟨hle, hlow, hhigh⟩ := (L.isNearest_iff _ _).1 h.isNearest
    refine ⟨hle, hlow, fun hlt => lt_of_le_of_ne (hhigh hlt) ?_⟩
    rintro rfl
    have hnext := L.magnitudeValue_strictMono (Nat.lt_succ_self magnitude)
    have htie : |L.magnitudeValue (magnitude + 1) - L.midpoint magnitude| =
        |L.magnitudeValue magnitude - L.midpoint magnitude| :=
      le_antisymm ((abs_sub_le_abs_sub_iff' hnext _).2 le_rfl)
        ((abs_sub_le_abs_sub_iff hnext _).2 le_rfl)
    exact Nat.not_succ_le_self _ ((h.2 (magnitude + 1) hlt).2 htie)
  · rintro ⟨hle, hlow, hhigh⟩
    have hnear := (L.isNearest_iff v magnitude).2 ⟨hle, hlow, fun hlt => (hhigh hlt).le⟩
    refine ⟨hle, fun other hother => ⟨hnear.2 other hother, fun htie => ?_⟩⟩
    by_contra hgt
    have hmid := hhigh ((not_le.1 hgt).trans_le hother)
    have hvalue := L.magnitudeValue_strictMono (not_le.1 hgt)
    have hnext := L.magnitudeValue_strictMono.monotone (Nat.succ_le_of_lt (not_le.1 hgt))
    have := (abs_sub_le_abs_sub_iff' hvalue v).1 htie.le
    rw [Nat.succ_eq_add_one] at hnext
    rw [midpoint] at hmid
    linarith

/-- Magnitudes are evenly spaced from one power of two to the next, and below the first one. -/
theorem units_add (e : Nat) {q : Nat} (hq : q ≤ L.hiddenBit) :
    L.units (e * L.hiddenBit + q) = L.units (e * L.hiddenBit) + q * 2 ^ (e - 1) := by
  rcases Nat.eq_zero_or_pos e with rfl | he
  · rw [Nat.zero_mul, Nat.zero_add, L.units_of_lt L.hiddenBit_pos]
    rcases Nat.lt_or_eq_of_le hq with hlt | rfl
    · simp [L.units_of_lt hlt]
    · simpa using L.units_mul_add Nat.one_pos L.hiddenBit_pos
  · have hbase := L.units_mul_add he L.hiddenBit_pos
    rw [Nat.add_zero, Nat.add_zero] at hbase
    rw [hbase, ← Nat.add_mul]
    rcases Nat.lt_or_eq_of_le hq with hlt | rfl
    · exact L.units_mul_add he hlt
    · have hnext := L.units_mul_add (Nat.succ_pos e) L.hiddenBit_pos
      obtain ⟨k, rfl⟩ := Nat.exists_eq_succ_of_ne_zero he.ne'
      rw [Nat.add_zero, Nat.add_zero, Nat.succ_mul] at hnext
      rw [hnext, Nat.succ_sub_one, Nat.succ_sub_one, Nat.pow_succ, Nat.mul_comm _ 2,
        ← Nat.mul_assoc, Nat.mul_two]

/-- The distance from a magnitude to the next within one exponent. -/
def spacing (e : Nat) : Rat := 2 ^ (e - 1) * L.unit

theorem spacing_pos (e : Nat) : 0 < L.spacing e := mul_pos (by positivity) L.unit_pos

theorem spacing_eq {e : Nat} (he : 0 < e) :
    L.spacing e = 2 ^ (e - L.bias - L.mantissaBits : Int) := by
  rw [spacing, unit, ← zpow_natCast, ← zpow_add₀ two_ne_zero]
  congr 1
  omega

theorem magnitudeValue_mul_hiddenBit {e : Nat} (he : 0 < e) :
    L.magnitudeValue (e * L.hiddenBit) = L.hiddenBit * L.spacing e := by
  have hvalue := L.magnitudeValue_mul_add he L.hiddenBit_pos
  rwa [Nat.add_zero, Nat.add_zero, ← L.spacing_eq he] at hvalue

theorem magnitudeValue_add (e : Nat) {q : Nat} (hq : q ≤ L.hiddenBit) :
    L.magnitudeValue (e * L.hiddenBit + q) =
      L.magnitudeValue (e * L.hiddenBit) + q * L.spacing e := by
  rw [magnitudeValue, L.units_add e hq, magnitudeValue, spacing]
  push_cast
  ring

theorem midpoint_add (e : Nat) {q : Nat} (hq : q < L.hiddenBit) :
    L.midpoint (e * L.hiddenBit + q) =
      L.magnitudeValue (e * L.hiddenBit) + (q + 1 / 2) * L.spacing e := by
  rw [midpoint, Nat.add_assoc, L.magnitudeValue_add e hq.le, L.magnitudeValue_add e hq]
  push_cast
  ring

variable {L} {v w : Rat} {magnitude other : Nat}

/-- A greater number has no lower nearest magnitude. -/
theorem IsNearestAway.mono (hv : L.IsNearestAway v magnitude) (hw : L.IsNearestAway w other)
    (h : v ≤ w) : magnitude ≤ other := by
  by_contra hlt
  rw [isNearestAway_iff] at hv hw
  have hbelow := hw.2.2 (by omega)
  have habove := hv.2.1 other (by omega)
  linarith

/-- A number has one nearest magnitude. -/
theorem IsNearestAway.unique (hv : L.IsNearestAway v magnitude) (hw : L.IsNearestAway v other) :
    magnitude = other :=
  Nat.le_antisymm (hv.mono hw le_rfl) (hw.mono hv le_rfl)

theorem isNearestAway_magnitudeValue (h : magnitude ≤ L.infinity) :
    L.IsNearestAway (L.magnitudeValue magnitude) magnitude :=
  (L.isNearestAway_iff _ _).2 ⟨h, fun _ hlt => (L.midpoint_lt_magnitudeValue hlt).le,
    fun _ => L.magnitudeValue_lt_midpoint _⟩

/-- What is not below infinity goes to infinity. -/
theorem isNearestAway_infinity (h : L.magnitudeValue L.infinity ≤ v) :
    L.IsNearestAway v L.infinity :=
  (L.isNearestAway_iff _ _).2 ⟨le_rfl,
    fun _ hlt => ((L.midpoint_lt_magnitudeValue hlt).trans_le h).le,
    fun hlt => absurd hlt (Nat.lt_irrefl _)⟩

end HalfPrecision.Layout
