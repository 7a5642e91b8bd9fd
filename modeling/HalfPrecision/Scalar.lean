import HalfPrecision.Conversion
import HalfPrecision.Platform
import HalfPrecision.Text.Quoted

/-!
# Single numbers

A half is made from a double and turned back into one where the platform follows IEEE 754. Patterns
of the built-in layouts are decoded to the doubles of their values.
-/

namespace HalfPrecision

/-- Conversion of single numbers is not available on this platform. -/
structure Unavailable where
deriving DecidableEq, Repr

namespace Platform

variable (p : Platform)

/-- The half nearest to a double. -/
def toHalf (double : Nat) : Except Unavailable Nat :=
  if p.ieee754 then .ok (halfOfDouble double) else .error {}

/-- The double equal to a half. -/
def ofHalf (half : Int) : Except Unavailable Nat :=
  if p.ieee754 then .ok (doubleOfHalf half) else .error {}

end Platform

/-- Why a pattern is not decoded. -/
inductive DecodeError where
  | unavailable
  | doesNotFit
  | unknownLayout (layout : Layout)
deriving DecidableEq

namespace Layout

/-- All that there is to a layout, in words. -/
def describe (L : Layout) : String :=
  "FormatLayout(name=" ++ Text.quoted L.name ++
    s!", width={L.width}, exponent_bits={L.exponentBits}, mantissa_bits={L.mantissaBits}" ++
    s!", bias={L.bias})"

end Layout

def DecodeError.message : DecodeError → String
  | unavailable => Platform.unavailableMessage
  | doesNotFit => "The pattern has bits beyond the word"
  | unknownLayout layout => "No decoding for " ++ layout.describe

namespace Layout

/-- The double that a pattern stands for. Halves are widened, whatever bits lie beyond the word;
singles and doubles are taken as they lie in memory, so they must fit. Other layouts are not
decoded. -/
def decode (p : Platform) (L : Layout) (bits : Int) : Except DecodeError Nat :=
  if L = half then (p.ofHalf bits).mapError fun _ => .unavailable
  else if L = single then
    if single.Fits bits then .ok (single.convertToEven double bits) else .error .doesNotFit
  else if L = double then
    if double.Fits bits then .ok bits.toNat else .error .doesNotFit
  else .error (.unknownLayout L)

end Layout

end HalfPrecision
