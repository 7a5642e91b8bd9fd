import HalfPrecision.Basic

/-!
# Binary floating-point layouts

A layout cuts a word into a sign bit, a biased exponent and a mantissa, from the top down. The two
field widths fix everything else: the width of the word, the bias and the masks. Patterns are
integers; only the bits of the word count, so a negative or overlong integer has fields too. The
exponent field tells zeros and denormals, normal numbers, and infinities and NaNs apart; the
mantissa decides within the first and the last of these pairs.
-/

namespace HalfPrecision

/-- The fields of one binary floating-point format. Neither the exponent nor the mantissa is
empty. -/
structure Layout where
  name : String
  exponentBits : Nat
  mantissaBits : Nat
  exponentBits_pos : 0 < exponentBits := by decide
  mantissaBits_pos : 0 < mantissaBits := by decide
deriving DecidableEq

/-- A bit pattern taken apart: sign, biased exponent and mantissa. -/
structure Fields where
  sign : Nat
  exponent : Nat
  mantissa : Nat
deriving DecidableEq, Repr

/-- The bias that goes with an exponent field. -/
def biasOf (exponentBits : Nat) : Nat := 2 ^ (exponentBits - 1) - 1

namespace Layout

def half : Layout := { name := "half", exponentBits := 5, mantissaBits := 10 }

def single : Layout := { name := "single", exponentBits := 8, mantissaBits := 23 }

def double : Layout := { name := "double", exponentBits := 11, mantissaBits := 52 }

/-- Whether a layout is one of the built-in ones, its name included. -/
def isBuiltIn (L : Layout) : Bool := L = half || L = single || L = double

variable (L : Layout)

def width : Nat := 1 + L.exponentBits + L.mantissaBits

/-- What is added to an exponent before it is stored. -/
def bias : Nat := biasOf L.exponentBits

def signMask : Nat := 2 ^ (L.width - 1)

/-- The all-ones exponent, which marks infinities and NaNs. -/
def exponentMax : Nat := 2 ^ L.exponentBits - 1

def exponentMask : Nat := L.exponentMax * 2 ^ L.mantissaBits

def mantissaMask : Nat := 2 ^ L.mantissaBits - 1

/-- The leading bit of a normal significand, which is not stored. -/
def hiddenBit : Nat := 2 ^ L.mantissaBits

/-- The pattern of positive infinity. -/
def infinity : Nat := L.exponentMask

/-- The canonical NaN: all exponent bits and the top mantissa bit alone. -/
def quietNan : Nat := L.exponentMask + 2 ^ (L.mantissaBits - 1)

/-- The bits of the word: the remainder of an integer modulo `2 ^ width`. -/
def wrap (bits : Int) : Nat := (bits % (2 ^ L.width : Nat)).toNat

def fields (bits : Int) : Fields where
  sign := L.wrap bits / 2 ^ (L.width - 1)
  exponent := L.wrap bits / 2 ^ L.mantissaBits % 2 ^ L.exponentBits
  mantissa := L.wrap bits % 2 ^ L.mantissaBits

/-- The three parts moved to their places and joined. Parts that do not fit their fields are not
cut, so they run into each other. -/
def compose (sign exponent mantissa : Int) : Int :=
  Bits.disjoin
    (Bits.disjoin (sign * (2 ^ (L.width - 1) : Nat)) (exponent * (2 ^ L.mantissaBits : Nat)))
    mantissa

/-- A magnitude with the sign bit `sign` above it. -/
def signed (sign magnitude : Nat) : Nat := sign * L.signMask + magnitude

/-- `W.Extends N`: `W` has more mantissa bits than `N` and no fewer exponent bits. -/
def Extends (W N : Layout) : Prop :=
  N.mantissaBits < W.mantissaBits ∧ N.exponentBits ≤ W.exponentBits

instance (W N : Layout) : Decidable (W.Extends N) := inferInstanceAs (Decidable (_ ∧ _))

/-- Whether a pattern has no bits beyond the word. -/
def Fits (bits : Int) : Prop := 0 ≤ bits ∧ bits < (2 ^ L.width : Nat)

theorem fits_iff (bits : Int) :
    L.Fits bits ↔ 0 ≤ bits ∧ (bits.toNat = 0 ∨ bits.toNat.log2 < L.width) := by
  refine and_congr_right fun h => ?_
  obtain ⟨n, rfl⟩ := Int.eq_ofNat_of_zero_le h
  rw [Int.toNat_natCast, Int.ofNat_lt]
  rcases Nat.eq_zero_or_pos n with rfl | hn
  · exact iff_of_true (Nat.two_pow_pos _) (.inl rfl)
  · have hne : n ≠ 0 := Nat.pos_iff_ne_zero.1 hn
    rw [Nat.log2_lt hne, or_iff_right hne]

/-- Whether a pattern fits is seen from its length; the word may be too wide to make its bound. -/
instance (bits : Int) : Decidable (L.Fits bits) := decidable_of_iff' _ (L.fits_iff bits)

theorem half_extends_single : single.Extends half := by decide

theorem half_extends_double : double.Extends half := by decide

theorem single_extends_double : double.Extends single := by decide

theorem width_eq : L.width = 1 + L.exponentBits + L.mantissaBits := rfl

theorem wrap_lt (bits : Int) : L.wrap bits < 2 ^ L.width := by
  have h : (0 : Int) < (2 ^ L.width : Nat) := by exact_mod_cast Nat.two_pow_pos L.width
  have := Int.emod_lt_of_pos bits h
  unfold wrap
  omega

end Layout

inductive FloatClass where
  | zero
  | denormal
  | normal
  | infinity
  | nan
deriving DecidableEq, Repr

namespace FloatClass

/-- The word by which a class is shown. -/
def label : FloatClass → String
  | zero => "zero"
  | denormal => "denormal"
  | normal => "normal"
  | infinity => "inf"
  | nan => "nan"

end FloatClass

def Layout.classify (L : Layout) (bits : Int) : FloatClass :=
  let fields := L.fields bits
  if fields.exponent = 0 then
    if fields.mantissa = 0 then .zero else .denormal
  else if fields.exponent = L.exponentMax then
    if fields.mantissa = 0 then .infinity else .nan
  else .normal

end HalfPrecision
