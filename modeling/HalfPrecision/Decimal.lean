import HalfPrecision.Conversion
import HalfPrecision.Text

/-!
# Decimal numerals

A numeral has an optional sign and is then a word for infinity or NaN, or digits with an optional
point and an optional exponent. Single underscores may stand between digits, and the digits may be
of any script. A numeral has an exact value; its double is the nearest one.

A positive number is written after rounding to a fixed count of significant digits: positionally if
its exponent is moderate, and with an exponent otherwise. Zeros at the end of the digits are left
out.
-/

namespace HalfPrecision.Decimal

open Text

/-- What a numeral without its sign stands for; the finite ones for `digits * 10 ^ exponent`. -/
inductive Magnitude where
  | finite (digits : Nat) (exponent : Int)
  | infinity
  | nan
deriving DecidableEq, Repr

structure Numeral where
  negative : Bool
  magnitude : Magnitude
deriving DecidableEq, Repr

/-- A text without its underscores, if each of them stands between two digits. -/
def joinGroups? (afterDigit : Bool) : List Char → Option (List Char)
  | [] => some []
  | c :: rest =>
      if c = '_' then
        if afterDigit && (rest.head?.any Char.isDigit) then joinGroups? false rest else none
      else (joinGroups? c.isDigit rest).map (c :: ·)

/-- Whether a text starts with a minus sign, and what follows its sign. -/
def splitSign : List Char → Bool × List Char
  | '-' :: rest => (true, rest)
  | '+' :: rest => (false, rest)
  | s => (false, s)

/-- The number in a row of ASCII digits. -/
def number (s : List Char) : Nat := ofDigits 10 (s.map fun c => c.toNat - 48)

/-- The exponent that ends a numeral; an empty text stands for zero. -/
def exponent? : List Char → Option Int
  | [] => some 0
  | c :: rest =>
      let (negative, ds) := splitSign rest
      if (c = 'e' || c = 'E') && !ds.isEmpty && ds.all Char.isDigit then
        some (if negative then -(number ds : Int) else number ds)
      else none

/-- The digits after a point, and what follows them. -/
def splitFraction : List Char → List Char × List Char
  | '.' :: rest => rest.span Char.isDigit
  | s => ([], s)

/-- The number in a text of digits, point and exponent. -/
def finite? (s : List Char) : Option Magnitude :=
  let (whole, rest) := s.span Char.isDigit
  let (fraction, rest) := splitFraction rest
  if whole.isEmpty && fraction.isEmpty then none
  else (exponent? rest).map fun e => .finite (number (whole ++ fraction)) (e - fraction.length)

/-- The words for infinity and NaN, in any case. -/
def word? (s : List Char) : Option Magnitude :=
  let lowered := s.map Char.toLower
  if lowered = "inf".toList || lowered = "infinity".toList then some .infinity
  else if lowered = "nan".toList then some .nan
  else none

/-- The numeral in a text that has no blanks around it. -/
def Numeral.ofChars? (s : List Char) : Option Numeral := do
  let joined ← joinGroups? false (foldDigits s)
  let (negative, rest) := splitSign joined
  let magnitude ← word? rest <|> finite? rest
  return { negative, magnitude }

/-- The fraction `digits * 10 ^ exponent`. -/
def fraction (digits : Nat) (exponent : Int) : Fraction :=
  (Fraction.ofNat digits).scaleTen exponent

/-- Exponents beyond this one in size lead out of the range of doubles. -/
def exponentLimit : Nat := 400

/-- The magnitude of the double nearest to `digits * 10 ^ exponent`. Exponents that decide the
result are not raised to a power. -/
def nearestDouble (digits : Nat) (exponent : Int) : Nat :=
  if digits = 0 then 0
  else if exponent > exponentLimit then Layout.double.infinity
  else if exponent < -(exponentLimit + digits.log2 : Nat) then 0
  else Layout.double.nearest (fraction digits exponent)

/-- The double nearest to a numeral. -/
def Numeral.toDouble (n : Numeral) : Nat :=
  Layout.double.signed n.negative.toNat <|
    match n.magnitude with
    | .finite digits exponent => nearestDouble digits exponent
    | .infinity => Layout.double.infinity
    | .nan => Layout.double.quietNan

/-! ## General notation -/

/-- The choices of a notation: how many digits are kept, which exponent is the least that is written
positionally (the first too large is the count of digits), and how many digits an exponent has at
least. -/
structure GeneralFormat where
  precision : Nat
  leastPositional : Int
  exponentSize : Nat

/-- The significant digits of a positive fraction as one number, and the exponent of the first. -/
def significant (precision : Nat) (q : Fraction) : Nat × Int :=
  let exponent := q.log10
  let n := (q.scaleTen (precision - 1 - exponent)).round
  if n = 10 ^ precision then (10 ^ (precision - 1), exponent + 1) else (n, exponent)

/-- Digits without the zeros at their end. -/
def dropTrailingZeros (s : List Char) : List Char := (s.reverse.dropWhile (· = '0')).reverse

/-- Digits after a point, without the zeros at their end; no point without digits. -/
def fractionPart (s : List Char) : List Char :=
  match dropTrailingZeros s with
  | [] => []
  | c :: rest => '.' :: c :: rest

def exponentPart (size : Nat) (exponent : Int) : List Char :=
  'e' :: (if exponent < 0 then '-' else '+') :: paddedNumeral 10 size exponent.natAbs

/-- A positive fraction in the notation. -/
def GeneralFormat.write (f : GeneralFormat) (q : Fraction) : List Char :=
  let (n, exponent) := significant f.precision q
  let ds := numeral 10 n
  if exponent < f.leastPositional || exponent ≥ f.precision then
    ds.take 1 ++ fractionPart (ds.drop 1) ++ exponentPart f.exponentSize exponent
  else if exponent < 0 then
    '0' :: fractionPart (List.replicate (-exponent - 1).toNat '0' ++ ds)
  else
    let whole := exponent.toNat + 1
    ds.take whole ++ fractionPart (ds.drop whole)

end HalfPrecision.Decimal
