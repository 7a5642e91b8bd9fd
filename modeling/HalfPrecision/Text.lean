import HalfPrecision.Basic

/-!
# Characters, digits and numbers

A set of characters is listed by closed ranges of code points. Two sets of blanks are in use: white
space is the property of that name, and the wider set, which is what is stripped from texts, adds the
four separator controls. The decimal digits of Unicode come in blocks of ten consecutive characters,
zero first, and a digit of any script stands for its value. Numbers are written in a base up to
sixteen, the most significant digit first; letters stand for the digits from ten on, in upper case.
-/

namespace HalfPrecision.Text

/-- Closed ranges of code points. -/
abbrev CodeRanges := List (Nat × Nat)

def CodeRanges.contains (ranges : CodeRanges) (c : Char) : Bool :=
  ranges.any fun range => range.1 ≤ c.toNat && c.toNat ≤ range.2

/-! ## Blanks -/

/-- The white space of Unicode. -/
def isWhiteSpace (c : Char) : Bool :=
  let n := c.toNat
  (0x09 ≤ n && n ≤ 0x0D) || n == 0x20 || n == 0x85 || n == 0xA0 || n == 0x1680 ||
    (0x2000 ≤ n && n ≤ 0x200A) || n == 0x2028 || n == 0x2029 || n == 0x202F || n == 0x205F ||
    n == 0x3000

/-- White space and the controls that separate files, groups, records and units. -/
def isBlank (c : Char) : Bool := isWhiteSpace c || (0x1C ≤ c.toNat && c.toNat ≤ 0x1F)

/-- A text without the characters of a class at its ends. -/
def trim (drop : Char → Bool) (s : List Char) : List Char :=
  ((s.dropWhile drop).reverse.dropWhile drop).reverse

/-- A text without the blanks at its ends. -/
def strip (s : List Char) : List Char := trim isBlank s

/-! ## Decimal digits -/

/-- The zeros of the blocks of decimal digits. -/
def digitZeros : List Nat := [
    0x0030, 0x0660, 0x06F0, 0x07C0, 0x0966, 0x09E6, 0x0A66, 0x0AE6, 0x0B66, 0x0BE6, 0x0C66, 0x0CE6,
    0x0D66, 0x0DE6, 0x0E50, 0x0ED0, 0x0F20, 0x1040, 0x1090, 0x17E0, 0x1810, 0x1946, 0x19D0, 0x1A80,
    0x1A90, 0x1B50, 0x1BB0, 0x1C40, 0x1C50, 0xA620, 0xA8D0, 0xA900, 0xA9D0, 0xA9F0, 0xAA50, 0xABF0,
    0xFF10, 0x104A0, 0x10D30, 0x11066, 0x110F0, 0x11136, 0x111D0, 0x112F0, 0x11450, 0x114D0,
    0x11650, 0x116C0, 0x11730, 0x118E0, 0x11950, 0x11C50, 0x11D50, 0x11DA0, 0x16A60, 0x16AC0,
    0x16B50, 0x1D7CE, 0x1D7D8, 0x1D7E2, 0x1D7EC, 0x1D7F6, 0x1E140, 0x1E2F0, 0x1E950, 0x1FBF0]

/-- The value of a decimal digit of any script. -/
def digitValue? (c : Char) : Option Nat :=
  (digitZeros.find? fun first => first ≤ c.toNat && c.toNat < first + 10).map (c.toNat - ·)

def isDigit (c : Char) : Bool := (digitValue? c).isSome

/-- The ASCII digit of value `d`, for `d < 10`. -/
def asciiDigit (d : Nat) : Char := Char.ofNat (48 + d)

/-- Decimal digits of any script written in ASCII; other characters are kept. -/
def foldDigits (s : List Char) : List Char :=
  s.map fun c => match digitValue? c with
    | some d => asciiDigit d
    | none => c

/-! ## Numbers in digits -/

/-- The digits of a number, the most significant first, in front of other digits. -/
def digitsOnto (base n : Nat) (rest : List Nat) : List Nat :=
  if h : base ≤ n ∧ 2 ≤ base then
    have : n / base < n := Nat.div_lt_self (by omega) h.2
    digitsOnto base (n / base) (n % base :: rest)
  else n :: rest
termination_by n

/-- The digits of a number, the most significant first; zero has one digit. -/
def digits (base n : Nat) : List Nat := digitsOnto base n []

/-- The character of a digit below sixteen. -/
def digitChar (d : Nat) : Char := if d < 10 then Char.ofNat (48 + d) else Char.ofNat (55 + d)

/-- A number in digits. -/
def numeral (base n : Nat) : List Char := (digits base n).map digitChar

/-- A number in at least `size` digits, filled up with zeros on the left. -/
def paddedNumeral (base size n : Nat) : List Char := (numeral base n).leftpad size '0'

/-- The value of an ASCII digit below sixteen, in either case. -/
def hexDigitValue? (c : Char) : Option Nat :=
  let n := c.toNat
  if 48 ≤ n && n ≤ 57 then some (n - 48)
  else if 65 ≤ n && n ≤ 70 then some (n - 55)
  else if 97 ≤ n && n ≤ 102 then some (n - 87)
  else none

/-- The number that a list of digits stands for. -/
def ofDigits (base : Nat) (ds : List Nat) : Nat := ds.foldl (fun n d => n * base + d) 0

/-- Digits in front of others stand for the number that the others continue. -/
theorem ofDigits_digitsOnto (base n : Nat) (rest : List Nat) :
    ofDigits base (digitsOnto base n rest) = rest.foldl (fun n d => n * base + d) n := by
  fun_induction digitsOnto base n rest with
  | case1 n rest h _ ih => rw [ih, List.foldl_cons, Nat.div_add_mod']
  | case2 n rest h => rw [ofDigits, List.foldl_cons, Nat.zero_mul, Nat.zero_add]

/-- Digits stand for the number that they were taken from. -/
theorem ofDigits_digits (base n : Nat) : ofDigits base (digits base n) = n :=
  ofDigits_digitsOnto base n []

/-- A text filled up with spaces on the left, to at least `size` characters. -/
def alignRight (size : Nat) (s : List Char) : List Char := s.leftpad size ' '

end HalfPrecision.Text
