import HalfPrecision.Fraction
import HalfPrecision.Layout

/-!
# Conversion between layouts

A pattern of a layout `S` is narrowed to a layout `T` with a shorter mantissa: the significand loses
its low bits and is rounded to nearest, a tie going away from zero; the carry may run through the
mantissa into the exponent and, from the largest finite number, into infinity. Denormals of `S`
become zeros, and every NaN becomes the quiet NaN of `T` with its sign.

A pattern is widened to a layout with a longer mantissa: the mantissa is padded with zeros on the
right and the exponent rebased. A denormal is normalised first: its significand is doubled until the
hidden bit is set, and the exponent pays for the doublings. Where `T` has no room below the exponents
of `S` the exponent that results is zero or negative, and a negative one gives a negative pattern.

A conversion between two layouts is refused by the names of the layouts alone: no pattern is looked
at.

A finite pattern stands for an exact fraction, and every fraction has a nearest pattern: the tie
between two neighbours goes to the even one, and what is too large goes to infinity. Here a number
read from text becomes a double, and a double a single.
-/

namespace HalfPrecision

inductive ConversionError where
  | cannotNarrow (source target : String)
  | cannotWiden (source target : String)
deriving DecidableEq, Repr

def ConversionError.message : ConversionError → String
  | cannotNarrow source target => "Cannot narrow " ++ source ++ " to " ++ target
  | cannotWiden source target => "Cannot widen " ++ source ++ " to " ++ target

/-! ## Narrowing -/

/-- `m / 2 ^ k` to the nearest integer, a half going up. -/
def roundShift (m k : Nat) : Nat := (m + 2 ^ k / 2) / 2 ^ k

/-- The rounded number is at most half a step away, and half a step only if it is above. -/
theorem roundShift_near (m : Nat) {k : Nat} (hk : 0 < k) :
    2 * (roundShift m k * 2 ^ k) ≤ 2 * m + 2 ^ k ∧
      2 * m < 2 * (roundShift m k * 2 ^ k) + 2 ^ k := by
  obtain ⟨j, rfl⟩ := Nat.exists_eq_succ_of_ne_zero (Nat.pos_iff_ne_zero.1 hk)
  have hhalf : 2 ^ (j + 1) / 2 = 2 ^ j := by
    rw [Nat.pow_succ, Nat.mul_div_cancel _ (by decide)]
  have hsplit := Nat.div_add_mod' (m + 2 ^ j) (2 ^ (j + 1))
  have hrest := Nat.mod_lt (m + 2 ^ j) (Nat.two_pow_pos (j + 1))
  rw [Nat.succ_eq_add_one, roundShift, hhalf]
  rw [Nat.pow_succ] at *
  omega

namespace Layout

variable (S T : Layout)

/-- The magnitude of a number of `S`, given by its fields, in `T`. -/
def narrowMagnitude (exponent mantissa : Nat) : Nat :=
  let drop := S.mantissaBits - T.mantissaBits
  if exponent = 0 then 0
  else if exponent = S.exponentMax then
    if mantissa = 0 then T.infinity else T.quietNan
  else
    let moved : Int := (exponent : Int) - S.bias + T.bias
    if moved ≥ T.exponentMax then T.infinity
    else if moved ≤ 0 then
      -- A denormal of `T`: the hidden bit is stored, and the missing exponent is shifted away.
      let shift := ((drop : Int) + 1 - moved).toNat
      if shift > S.mantissaBits + 1 then 0 else roundShift (S.hiddenBit + mantissa) shift
    else moved.toNat * T.hiddenBit + roundShift mantissa drop

/-- The pattern of `T` for a pattern of `S`, for layouts where `S` extends `T`. -/
def narrowPattern (bits : Int) : Nat :=
  let fields := S.fields bits
  T.signed fields.sign (narrowMagnitude S T fields.exponent fields.mantissa)

def narrow (bits : Int) : Except ConversionError Nat :=
  if S.Extends T then .ok (narrowPattern S T bits)
  else .error (.cannotNarrow S.name T.name)

theorem narrow_eq_ok {S T : Layout} (h : S.Extends T) (bits : Int) :
    narrow S T bits = .ok (narrowPattern S T bits) := if_pos h

end Layout

/-- The half nearest to a single. -/
def halfOfSingle (bits : Int) : Nat := Layout.narrowPattern .single .half bits

/-- The half nearest to a double. -/
def halfOfDouble (bits : Int) : Nat := Layout.narrowPattern .double .half bits

/-! ## Widening -/

/-- `m` doubled until bit `k` is set, and how often it was doubled; at most `fuel` times. -/
def raiseToBit (k : Nat) : Nat → Nat → Nat × Nat
  | 0, m => (m, 0)
  | fuel + 1, m =>
      if m.testBit k then (m, 0)
      else
        let (raised, doublings) := raiseToBit k fuel (2 * m)
        (raised, doublings + 1)

theorem snd_raiseToBit_le (k fuel m : Nat) : (raiseToBit k fuel m).2 ≤ fuel := by
  induction fuel generalizing m with
  | zero => exact Nat.le_refl 0
  | succ fuel ih =>
      rw [raiseToBit]
      split
      next => exact Nat.zero_le _
      next => exact Nat.succ_le_succ (ih (2 * m))

/-- What a pattern is joined from: its sign, its exponent, and a number that gives the mantissa when
it is moved up by `places`. -/
structure WideParts where
  sign : Nat
  exponent : Int
  significand : Nat
  places : Nat
deriving DecidableEq, Repr

namespace Layout

variable (S T : Layout)

/-- The parts in `T` of a pattern of `S`. -/
def widenParts (bits : Int) : WideParts :=
  let fields := S.fields bits
  let sign := fields.sign
  let grow := T.mantissaBits - S.mantissaBits
  if fields.exponent = 0 then
    if fields.mantissa = 0 then { sign, exponent := 0, significand := 0, places := grow }
    else
      let (raised, doublings) := raiseToBit S.mantissaBits S.mantissaBits fields.mantissa
      { sign
        exponent := 1 - S.bias + T.bias - doublings
        significand := raised % S.hiddenBit
        places := grow }
  else if fields.exponent = S.exponentMax then
    { sign
      exponent := T.exponentMax
      significand := if fields.mantissa = 0 then 0 else 1
      places := T.mantissaBits - 1 }
  else
    { sign
      exponent := fields.exponent - S.bias + T.bias
      significand := fields.mantissa
      places := grow }

/-- The pattern of `T` for a pattern of `S`, for layouts where `T` extends `S`. -/
def widenPattern (bits : Int) : Int :=
  let parts := widenParts S T bits
  T.compose parts.sign parts.exponent (parts.significand * 2 ^ parts.places : Nat)

def widen (bits : Int) : Except ConversionError Int :=
  if T.Extends S then .ok (widenPattern S T bits)
  else .error (.cannotWiden S.name T.name)

theorem widen_eq_ok {S T : Layout} (h : T.Extends S) (bits : Int) :
    widen S T bits = .ok (widenPattern S T bits) := if_pos h

end Layout

/-- The single equal to a half. -/
def singleOfHalf (bits : Int) : Nat := (Layout.widenPattern .half .single bits).toNat

/-- The double equal to a half. -/
def doubleOfHalf (bits : Int) : Nat := (Layout.widenPattern .half .double bits).toNat

/-! ## The nearest pattern -/

namespace Layout

variable (L : Layout)

/-- The exponent of the least normal number. -/
def lowestExponent : Int := 1 - L.bias

/-- The magnitude of a finite pattern, given by its fields. -/
def magnitude (exponent mantissa : Nat) : Fraction :=
  if exponent = 0 then
    (Fraction.ofNat mantissa).scaleTwo (L.lowestExponent - L.mantissaBits)
  else
    (Fraction.ofNat (L.hiddenBit + mantissa)).scaleTwo (exponent - L.bias - L.mantissaBits)

/-- The pattern without sign that is nearest to a fraction, a tie going to the even one. -/
def nearest (q : Fraction) : Nat :=
  if q.num = 0 then 0
  else
    -- Below the least normal number the spacing of the patterns stays the same.
    let exponent := max q.log2 L.lowestExponent
    let significand := (q.scaleTwo (L.mantissaBits - exponent)).round
    min ((exponent - L.lowestExponent).toNat * L.hiddenBit + significand) L.infinity

/-- The pattern of `T` nearest to a pattern of `L`, a tie going to the even one. A NaN becomes the
quiet one. -/
def convertToEven (T : Layout) (bits : Int) : Nat :=
  let fields := L.fields bits
  T.signed fields.sign <|
    if fields.exponent = L.exponentMax then
      if fields.mantissa = 0 then T.infinity else T.quietNan
    else T.nearest (L.magnitude fields.exponent fields.mantissa)

/-- The integer that a finite pattern stands for, if it is one. -/
def integer? (bits : Int) : Option Int :=
  let fields := L.fields bits
  let q := L.magnitude fields.exponent fields.mantissa
  if fields.exponent = L.exponentMax then none
  else if q.num % q.den = 0 then
    let n : Int := (q.num / q.den : Nat)
    some (if fields.sign = 0 then n else -n)
  else none

end Layout

end HalfPrecision
