import HalfPrecision.Basic

/-!
# Fractions

Exact nonnegative numbers for reading, rounding and writing: a numerator over a positive
denominator, not reduced. A fraction is scaled by powers of a base, rounded to the nearest integer,
and placed between two powers of two or ten.
-/

namespace HalfPrecision

structure Fraction where
  num : Nat
  den : Nat
  den_pos : 0 < den

namespace Fraction

def ofNat (n : Nat) : Fraction := { num := n, den := 1, den_pos := Nat.one_pos }

variable (q : Fraction)

/-- The fraction times `b ^ e`. -/
def scale (b : Nat) (b_pos : 0 < b) (e : Int) : Fraction :=
  if 0 ≤ e then { q with num := q.num * b ^ e.toNat }
  else
    { num := q.num
      den := q.den * b ^ (-e).toNat
      den_pos := Nat.mul_pos q.den_pos (Nat.pow_pos b_pos) }

theorem ten_pos : 0 < 10 := Nat.succ_pos 9

/-- The fraction times `2 ^ e`. -/
def scaleTwo (e : Int) : Fraction := q.scale 2 Nat.two_pos e

/-- The fraction times `10 ^ e`. -/
def scaleTen (e : Int) : Fraction := q.scale 10 ten_pos e

/-- The nearest integer, a half going to the even neighbour. -/
def round : Nat :=
  let low := q.num / q.den
  let rest := 2 * (q.num % q.den)
  if rest < q.den then low
  else if q.den < rest then low + 1
  else low + low % 2

/-- No integer is nearer than the rounded one: the distance is at most a half. -/
theorem round_near : 2 * q.num ≤ 2 * (q.round * q.den) + q.den ∧
    2 * (q.round * q.den) ≤ 2 * q.num + q.den := by
  have hsplit := Nat.div_add_mod' q.num q.den
  have hrest := Nat.mod_lt q.num q.den_pos
  simp only [round]
  split
  · omega
  · split
    · rw [Nat.add_mul, Nat.one_mul]
      omega
    · rcases Nat.mod_two_eq_zero_or_one (q.num / q.den) with h | h
      · rw [h, Nat.add_zero]
        omega
      · rw [h, Nat.add_mul, Nat.one_mul]
        omega

/-- A half goes to the even neighbour. -/
theorem round_of_half (h : 2 * (q.num % q.den) = q.den) : q.round % 2 = 0 := by
  simp only [round, h, Nat.lt_irrefl, if_false]
  omega

/-- Whether the fraction is one or more. -/
def atLeastOne : Bool := q.den ≤ q.num

/-- The greatest `e` with `2 ^ e` not above the fraction, if that is positive. -/
def log2 : Int :=
  let guess : Int := (q.num.log2 : Int) - q.den.log2
  if (q.scaleTwo (-guess)).atLeastOne then guess else guess - 1

/-- The number of decimal digits of a number. -/
def digitCount (n : Nat) : Nat := if n < 10 then 1 else digitCount (n / 10) + 1
termination_by n

/-- The greatest `e` with `10 ^ e` not above the fraction, if that is positive. -/
def log10 : Int :=
  let guess : Int := (digitCount q.num : Int) - digitCount q.den
  if (q.scaleTen (-guess)).atLeastOne then guess else guess - 1

end Fraction

end HalfPrecision
