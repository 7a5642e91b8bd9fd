import HalfPrecision.Proofs.Conversion.Detour
import HalfPrecision.Proofs.Conversion.Flushing
import HalfPrecision.Proofs.Conversion.Magnitude
import HalfPrecision.Proofs.Layout.Nearest

/-!
# Rounding twice

The midpoints of a layout are numbers of every layout that has a longer mantissa and is far enough
apart. So a first rounding to such a layout moves no number across a midpoint, only onto it, and a
second rounding then goes to the greater neighbour. Apart from that, narrowing in two steps is
narrowing in one.
-/

namespace HalfPrecision.Layout

section Units

variable (L : Layout)

/-- A number of units that has no more bits than a significand, apart from zeros at its end, belongs
to a magnitude. -/
theorem exists_units_eq {n : Nat} (hn : n < 2 * L.hiddenBit) (places : Nat) :
    ∃ magnitude, L.units magnitude = n * 2 ^ places := by
  induction places generalizing n with
  | zero =>
      rcases Nat.lt_or_ge n L.hiddenBit with hlow | hlow
      · exact ⟨n, by rw [L.units_of_lt hlow, Nat.pow_zero, Nat.mul_one]⟩
      · refine ⟨1 * L.hiddenBit + (n - L.hiddenBit), ?_⟩
        rw [L.units_mul_add Nat.one_pos (by omega), Nat.add_sub_cancel' hlow]
  | succ places ih =>
      rcases Nat.lt_or_ge n L.hiddenBit with hlow | hlow
      · obtain ⟨magnitude, hunits⟩ := ih (n := 2 * n) (by omega)
        exact ⟨magnitude, by rw [hunits, Nat.pow_succ, Nat.mul_comm 2 n, Nat.mul_assoc,
          Nat.mul_comm 2]⟩
      · refine ⟨(places + 1 + 1) * L.hiddenBit + (n - L.hiddenBit), ?_⟩
        rw [L.units_mul_add (Nat.succ_pos _) (by omega), Nat.add_sub_cancel' hlow,
          Nat.succ_sub_one]

/-- The units of two neighbours add up to a number with at most two more bits than a mantissa, apart
from zeros at its end. -/
theorem exists_units_add_units_succ (magnitude : Nat) :
    ∃ n places, n < 4 * L.hiddenBit ∧
      L.units magnitude + L.units (magnitude + 1) = n * 2 ^ places := by
  obtain ⟨e, q, hq, rfl⟩ : ∃ e q, q < L.hiddenBit ∧ magnitude = e * L.hiddenBit + q :=
    ⟨_, _, Nat.mod_lt _ L.hiddenBit_pos, (Nat.div_add_mod' magnitude L.hiddenBit).symm⟩
  have hsum : L.units (e * L.hiddenBit + q) + L.units (e * L.hiddenBit + q + 1) =
      2 * L.units (e * L.hiddenBit) + (2 * q + 1) * 2 ^ (e - 1) := by
    rw [Nat.add_assoc, L.units_add e hq.le, L.units_add e (show q + 1 ≤ L.hiddenBit from hq)]
    ring
  rcases Nat.eq_zero_or_pos e with rfl | he
  · refine ⟨2 * q + 1, 0, by omega, ?_⟩
    rw [hsum, Nat.zero_mul, L.units_of_lt L.hiddenBit_pos, Nat.mul_zero, Nat.zero_add]
  · refine ⟨2 * L.hiddenBit + (2 * q + 1), e - 1, by omega, ?_⟩
    have hbase := L.units_mul_add he L.hiddenBit_pos
    rw [Nat.add_zero, Nat.add_zero] at hbase
    rw [hsum, hbase]
    ring

end Units

section Midpoints

variable {B C : Layout} (h : B.Extends C) (hfar : C.bias + C.mantissaBits + 1 ≤ B.bias)

include h hfar

/-- The midpoints of the narrower layout are numbers of the wider one. -/
theorem Extends.exists_magnitudeValue_eq_midpoint (magnitude : Nat) :
    ∃ wide, B.magnitudeValue wide = C.midpoint magnitude := by
  obtain ⟨n, places, hn, hsum⟩ := C.exists_units_add_units_succ magnitude
  obtain ⟨more, hmore⟩ := Nat.exists_eq_add_of_le
    (show C.bias + C.mantissaBits + 1 ≤ B.bias + B.mantissaBits by omega)
  have hhidden : 2 * C.hiddenBit ≤ B.hiddenBit := by
    rw [hiddenBit, hiddenBit, Nat.mul_comm, ← Nat.pow_succ]
    exact Nat.pow_le_pow_right Nat.two_pos h.1
  have hunit : C.unit / 2 = 2 ^ more * B.unit := by
    rw [unit, unit, ← zpow_natCast, ← zpow_add₀ two_ne_zero, div_eq_iff two_ne_zero,
      ← zpow_add_one₀ two_ne_zero]
    congr 1
    omega
  obtain ⟨wide, hwide⟩ := B.exists_units_eq (show n < 2 * B.hiddenBit by omega) (places + more)
  refine ⟨wide, ?_⟩
  calc B.magnitudeValue wide
      = (n * 2 ^ places : Nat) * (2 ^ more * B.unit) := by
        rw [magnitudeValue, hwide, Nat.pow_add, ← Nat.mul_assoc]
        push_cast
        ring
    _ = (C.units magnitude + C.units (magnitude + 1) : Nat) * (C.unit / 2) := by
        rw [← hsum, hunit]
    _ = C.midpoint magnitude := by
        rw [midpoint, magnitudeValue, magnitudeValue]
        push_cast
        ring

omit h in
theorem magnitudeValue_infinity_le_of_far :
    C.magnitudeValue C.infinity ≤ B.magnitudeValue B.infinity := by
  rw [magnitudeValue_infinity, magnitudeValue_infinity, exponentMax_eq, exponentMax_eq]
  exact zpow_le_zpow_right₀ one_le_two (by omega)

/-- The midpoints below infinity of the narrower layout are below that of the wider one. -/
theorem Extends.exists_le_infinity_eq_midpoint {magnitude : Nat} (hlt : magnitude < C.infinity) :
    ∃ wide ≤ B.infinity, B.magnitudeValue wide = C.midpoint magnitude := by
  obtain ⟨wide, hwide⟩ := h.exists_magnitudeValue_eq_midpoint hfar magnitude
  refine ⟨wide, ?_, hwide⟩
  rw [← B.magnitudeValue_strictMono.le_iff_le, hwide]
  exact (C.midpoint_lt_magnitudeValue hlt).le.trans (magnitudeValue_infinity_le_of_far hfar)

variable {v : Rat} {first direct second : Nat}

/-- The first rounding leaves what is not below a midpoint there. -/
theorem IsNearest.midpoint_le (hfirst : B.IsNearest v first) {magnitude : Nat}
    (hlt : magnitude < C.infinity) (hle : C.midpoint magnitude ≤ v) :
    C.midpoint magnitude ≤ B.magnitudeValue first := by
  obtain ⟨wide, hwide, hvalue⟩ := h.exists_le_infinity_eq_midpoint hfar hlt
  rw [← hvalue] at hle ⊢
  exact B.magnitudeValue_strictMono.monotone (hfirst.le_of_magnitudeValue_le hwide hle)

/-- The first rounding takes nothing from below a midpoint beyond it. -/
theorem IsNearest.le_midpoint (hfirst : B.IsNearest v first) {magnitude : Nat}
    (hlt : magnitude < C.infinity) (hle : v ≤ C.midpoint magnitude) :
    B.magnitudeValue first ≤ C.midpoint magnitude := by
  obtain ⟨wide, -, hvalue⟩ := h.exists_le_infinity_eq_midpoint hfar hlt
  rw [← hvalue] at hle ⊢
  exact B.magnitudeValue_strictMono.monotone (hfirst.le_of_le_magnitudeValue hle)

/-- A number that is rounded twice goes where it goes at once, or to the next magnitude. The latter
happens exactly if the first rounding, whichever way it decides ties, took it up to the midpoint
between the two. -/
theorem IsNearest.twice (hfirst : B.IsNearest v first) (hdirect : C.IsNearestAway v direct)
    (hsecond : C.IsNearestAway (B.magnitudeValue first) second) :
    (second = direct ∨ second = direct + 1) ∧
      (second = direct + 1 ↔
        direct < C.infinity ∧ B.magnitudeValue first = C.midpoint direct ∧
          v < C.midpoint direct) := by
  obtain ⟨hdirectle, hdirectlow, hdirecthigh⟩ := (C.isNearestAway_iff _ _).1 hdirect
  obtain ⟨hsecondle, hsecondlow, hsecondhigh⟩ := (C.isNearestAway_iff _ _).1 hsecond
  have hlow : direct ≤ second := by
    by_contra hlt
    have hmid := hdirectlow second (not_le.1 hlt)
    have hlt' := (not_le.1 hlt).trans_le hdirectle
    exact (hsecondhigh hlt').not_ge (hfirst.midpoint_le h hfar hlt' hmid)
  have hhigh (hlt : direct < C.infinity) :
      B.magnitudeValue first ≤ C.midpoint direct :=
    hfirst.le_midpoint h hfar hlt (hdirecthigh hlt).le
  have hnext : second ≤ direct + 1 := by
    by_contra hgt
    have hmid := hsecondlow (direct + 1) (not_le.1 hgt)
    have hstep := C.midpoint_strictMono (Nat.lt_succ_self direct)
    exact (hstep.trans_le hmid).not_ge (hhigh (by omega))
  refine ⟨by omega, ?_, ?_⟩
  · rintro rfl
    have hlt : direct < C.infinity := hsecondle
    exact ⟨hlt, le_antisymm (hhigh hlt) (hsecondlow direct (Nat.lt_succ_self _)),
      hdirecthigh hlt⟩
  · rintro ⟨hlt, hmid, -⟩
    have hne : second ≠ direct := by
      rintro rfl
      exact (hsecondhigh hlt).ne hmid
    omega

end Midpoints

section Narrowed

variable {A B C : Layout} {magnitude : Nat}

/-- Where the biases are far enough apart, every magnitude up to infinity is rounded. -/
theorem isNearestAway_narrowed_of_far (h : B.Extends C)
    (hfar : C.bias + C.mantissaBits + 1 ≤ B.bias) (hle : magnitude ≤ B.infinity) :
    C.IsNearestAway (B.magnitudeValue magnitude) (narrowed B C magnitude) := by
  have hbits := magnitudeBits_natCast (hle.trans_lt B.infinity_lt_signMask)
  rcases Nat.lt_or_eq_of_le hle with hlt | rfl
  · have hfinite : B.IsFinite magnitude := by rwa [isFinite_iff, hbits]
    have hnear := isNearestAway_narrowMagnitude_of_far h hfar hfinite
    rwa [abs_value, exponent_eq, mantissa_eq, hbits] at hnear
  · rw [narrowed_infinity]
    exact isNearestAway_infinity (magnitudeValue_infinity_le_of_far hfar)

/-- Narrowing a finite magnitude in two steps gives what one step gives, or the next magnitude. -/
theorem narrowed_narrowed (hAB : A.Extends B) (hBC : B.Extends C)
    (hfar : C.bias + C.mantissaBits + 1 ≤ B.bias) (hlt : magnitude < A.infinity) :
    let first := narrowed A B magnitude
    let direct := narrowed A C magnitude
    let second := narrowed B C first
    (second = direct ∨ second = direct + 1) ∧
      (second = direct + 1 ↔
        direct < C.infinity ∧ B.magnitudeValue first = C.midpoint direct ∧
          A.magnitudeValue magnitude < C.midpoint direct) := by
  rcases Nat.lt_or_ge magnitude A.hiddenBit with hlow | hlow
  · have hzero : (0 : Rat) ≠ C.midpoint 0 := by
      have := C.magnitudeValue_lt_midpoint 0
      rw [magnitudeValue_zero] at this
      exact this.ne
    simp [narrowed_of_lt_hiddenBit hlow, narrowed_of_lt_hiddenBit B.hiddenBit_pos, hzero]
  · have hfirst := isNearestAway_narrowed hAB hlow hlt
    have hdirect := isNearestAway_narrowed (hAB.trans hBC) hlow hlt
    exact hfirst.isNearest.twice hBC hfar hdirect (isNearestAway_narrowed_of_far hBC hfar hfirst.1)

/-- Infinity and the NaNs take the same way in two steps as in one. -/
theorem narrowed_narrowed_of_infinity_le (hle : A.infinity ≤ magnitude)
    (hlt : magnitude < A.signMask) :
    narrowed B C (narrowed A B magnitude) = narrowed A C magnitude := by
  rcases Nat.lt_or_eq_of_le hle with hnan | rfl
  · rw [narrowed_of_infinity_lt hnan hlt, narrowed_of_infinity_lt hnan hlt,
      narrowed_of_infinity_lt B.infinity_lt_quietNan B.quietNan_lt_signMask]
  · simp

end Narrowed

/-- Narrowing in two steps keeps the sign and gives what one step gives, but for the numbers just
below a midpoint that the first step takes up to it: these go to the next magnitude. If the first
step ends at infinity, it counts as the next power of two, which lies beyond all the midpoints. -/
theorem narrow_narrow {A B C : Layout} (hAB : A.Extends B) (hBC : B.Extends C)
    (hfar : C.bias + C.mantissaBits + 1 ≤ B.bias) (bits : Int) :
    ∃ first direct second : Nat, narrow A B bits = .ok first ∧ narrow A C bits = .ok direct ∧
      narrow B C first = .ok second ∧ (C.fields second).sign = (C.fields direct).sign ∧
      (¬ A.IsFinite bits → second = direct) ∧
      (A.IsFinite bits →
        (C.magnitudeBits second = C.magnitudeBits direct ∨
          C.magnitudeBits second = C.magnitudeBits direct + 1) ∧
        (C.magnitudeBits second = C.magnitudeBits direct + 1 ↔
          C.IsFinite direct ∧ |B.value first| = C.midpoint (C.magnitudeBits direct) ∧
            |A.value bits| < C.midpoint (C.magnitudeBits direct))) := by
  have hAC : A.Extends C := hAB.trans hBC
  refine ⟨_, _, _, narrow_eq_ok hAB bits, narrow_eq_ok hAC bits, narrow_eq_ok hBC _, ?_, ?_, ?_⟩
  · rw [sign_narrowPattern hBC, sign_narrowPattern hAB, sign_narrowPattern hAC]
  · intro hfinite
    rw [isFinite_iff, not_lt] at hfinite
    rw [narrowPattern_eq_signed (S := B), narrowPattern_eq_signed (S := A) (T := C),
      sign_narrowPattern hAB, magnitudeBits_narrowPattern hAB,
      narrowed_narrowed_of_infinity_le hfinite (A.magnitudeBits_lt bits)]
  · intro hfinite
    rw [isFinite_iff] at hfinite
    rw [isFinite_iff, abs_value, abs_value, magnitudeBits_narrowPattern hBC,
      magnitudeBits_narrowPattern hAC, magnitudeBits_narrowPattern hAB]
    exact narrowed_narrowed hAB hBC hfar hfinite

/-- A negative double just below the midpoint between one and the next half: the nearest single is
that midpoint, so its half is not the nearest half of the double. -/
theorem narrow_narrow_double_single_half :
    double.Extends single ∧ single.Extends half ∧
      half.bias + half.mantissaBits + 1 ≤ single.bias ∧
      double.IsFinite 0xBFF001FFFFFFFFFF ∧
      narrow double single 0xBFF001FFFFFFFFFF = .ok 0xBF801000 ∧
      narrow double half 0xBFF001FFFFFFFFFF = .ok 0xBC00 ∧
      narrow single half 0xBF801000 = .ok 0xBC01 ∧
        |single.value 0xBF801000| = half.midpoint 0x3C00 ∧
          |double.value 0xBFF001FFFFFFFFFF| < half.midpoint 0x3C00 := by
  have hwide : double.Extends single := by decide
  have hnarrow : single.Extends half := by decide
  have hfar : half.bias + half.mantissaBits + 1 ≤ single.bias := by decide
  have hfinite : double.IsFinite 0xBFF001FFFFFFFFFF := by decide
  have hfirst : narrow double single 0xBFF001FFFFFFFFFF = .ok 0xBF801000 := by decide
  have hdirect : narrow double half 0xBFF001FFFFFFFFFF = .ok 0xBC00 := by decide
  have hsecond : narrow single half 0xBF801000 = .ok 0xBC01 := by decide
  obtain ⟨first, direct, second, hfirst', hdirect', hsecond', -, -, htwice⟩ :=
    narrow_narrow hwide hnarrow hfar 0xBFF001FFFFFFFFFF
  obtain rfl : 0xBF801000 = first := Except.ok.inj (hfirst.symm.trans hfirst')
  obtain rfl : 0xBC00 = direct := Except.ok.inj (hdirect.symm.trans hdirect')
  obtain rfl : 0xBC01 = second := Except.ok.inj (hsecond.symm.trans hsecond')
  have hbits : half.magnitudeBits (0xBC00 : Nat) = 0x3C00 := by decide
  obtain ⟨-, hmid, hbelow⟩ := (htwice hfinite).2.1 (by decide)
  rw [hbits] at hmid hbelow
  exact ⟨hwide, hnarrow, hfar, hfinite, hfirst, hdirect, hsecond, hmid, hbelow⟩

end HalfPrecision.Layout
