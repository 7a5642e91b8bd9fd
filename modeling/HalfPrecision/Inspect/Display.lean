import HalfPrecision.Capacity
import HalfPrecision.Decimal
import HalfPrecision.Scalar

/-!
# Patterns on display

A pattern is shown in hexadecimal, as the binary digits of its fields, by its class and by its
value. A value has six significant digits. A pattern is shown only if its texts can be filled up to
the widths of its layout, and its fields only if the mask of the mantissa can be made.

A pattern is described by a line in its own layout, and by lines for the half nearest to it and for
the single and the double equal to that half.
-/

namespace HalfPrecision.Inspect

open Text

/-- Six significant digits; positional from `10 ^ -4` on and below `10 ^ 6`. -/
def valueFormat : Decimal.GeneralFormat :=
  { precision := 6, leastPositional := -4, exponentSize := 2 }

/-- The text of a double without its sign. -/
def magnitudeText (double : Nat) : List Char :=
  match Layout.double.classify double with
  | .zero => ['0']
  | .infinity => "inf".toList
  | .nan => "nan".toList
  | .denormal | .normal =>
      let fields := Layout.double.fields double
      valueFormat.write (Layout.double.magnitude fields.exponent fields.mantissa)

/-- The text of a double. A NaN has no sign. -/
def scalarText (double : Nat) : List Char :=
  let negative := (Layout.double.fields double).sign = 1
  if negative && Layout.double.classify double ≠ .nan then '-' :: magnitudeText double
  else magnitudeText double

/-- A pattern in hexadecimal, filled up to a digit for each four bits of the layout. The sign of a
negative number takes the place of a digit. -/
def hexText (L : Layout) (bits : Int) : List Char :=
  let size := L.width / 4
  '0' :: 'x' ::
    if bits < 0 then '-' :: paddedNumeral 16 (size - 1) bits.natAbs
    else paddedNumeral 16 size bits.natAbs

theorem hexText_natCast (L : Layout) (n : Nat) :
    hexText L n = '0' :: 'x' :: paddedNumeral 16 (L.width / 4) n := by
  have hsign : ¬ (n : Int) < 0 := by omega
  rw [hexText, if_neg hsign, Int.natAbs_natCast]

/-- The fields of a pattern in binary. -/
def fieldsText (L : Layout) (bits : Int) : List Char :=
  let fields := L.fields bits
  numeral 2 fields.sign ++ ' ' :: paddedNumeral 2 L.exponentBits fields.exponent ++
    ' ' :: paddedNumeral 2 L.mantissaBits fields.mantissa

/-- The line for a pattern and its value. -/
def patternText (L : Layout) (bits : Int) (double : Nat) : List Char :=
  alignRight 6 L.name.toList ++ ": ".toList ++ hexText L bits ++ " [".toList ++ fieldsText L bits ++
    "] ".toList ++ (L.classify bits).label.toList ++ " = ".toList ++ scalarText double

def formatScalar (double : Nat) : String := String.ofList (scalarText double)

def formatHex (L : Layout) (bits : Int) : String := String.ofList (hexText L bits)

def formatFields (L : Layout) (bits : Int) : String := String.ofList (fieldsText L bits)

def formatPattern (L : Layout) (bits : Int) (double : Nat) : String :=
  String.ofList (patternText L bits double)

/-! ## Very wide patterns -/

section

variable (capacity : Capacity) (L : Layout) (bits : Int)

def formatHexWithin : Except CapacityError String :=
  (capacity.checkWidth (L.width / 4)).map fun _ => formatHex L bits

def formatFieldsWithin : Except CapacityError String :=
  (capacity.checkShift 1 L.mantissaBits).map fun _ => formatFields L bits

/-- The line for a pattern and its value; its hexadecimal text is made first. -/
def formatPatternWithin (double : Nat) : Except CapacityError String := do
  capacity.checkWidth (L.width / 4)
  capacity.checkShift 1 L.mantissaBits
  return formatPattern L bits double

end

/-! ## Descriptions -/

/-- The line of a pattern with its decoded value. -/
def line (p : Platform) (L : Layout) (bits : Int) : Except DecodeError String := do
  return formatPattern L bits (← L.decode p bits)

/-- The lines of a half and of what it widens to. -/
def halfLines (p : Platform) (half : Int) : Except DecodeError (List String) := do
  return [
    ← line p .half half,
    ← line p .single (singleOfHalf half),
    ← line p .double (doubleOfHalf half)]

/-- The lines of a pattern. The own line comes first unless the layout is the half. -/
def describe (p : Platform) (L : Layout) (bits : Int) : Except DecodeError (List String) := do
  if L = .half then halfLines p bits
  else
    let own ← line p L bits
    return own :: (← halfLines p (Layout.narrowPattern L .half bits))

end HalfPrecision.Inspect
