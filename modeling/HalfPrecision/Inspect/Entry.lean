import HalfPrecision.Decimal
import HalfPrecision.Text

/-!
# Entered values

A value is entered as a bit pattern in hexadecimal, which belongs to a given layout and must fit it,
or as a decimal numeral, which is read as a double. Blanks around it do not matter.
-/

namespace HalfPrecision.Inspect

open Text

/-- Why a text is no value; each names the text without the blanks around it. -/
inductive EntryError where
  | invalidPattern (text : String)
  | invalidValue (text : String)
  | doesNotFit (text : String) (layoutName : String) (width : Nat)
deriving DecidableEq, Repr

def EntryError.message : EntryError → String
  | invalidPattern text => "Invalid bit pattern '" ++ text ++ "'"
  | invalidValue text => "Invalid value '" ++ text ++ "'"
  | doesNotFit text layoutName width =>
      s!"Bit pattern {text} does not fit {layoutName} ({width} bits)"

/-- Whether a text starts like a bit pattern, and what follows the sign and the `0x`. -/
def splitPattern? : List Char → Option (Bool × List Char)
  | '-' :: '0' :: x :: rest => if x = 'x' || x = 'X' then some (true, rest) else none
  | '0' :: x :: rest => if x = 'x' || x = 'X' then some (false, rest) else none
  | _ => none

/-- The digits of a pattern without the underscores, each of which stands before a digit. -/
def patternDigits? : List Char → Option (List Nat)
  | [] => some []
  | '_' :: c :: rest => do return (← hexDigitValue? c) :: (← patternDigits? rest)
  | c :: rest => do return (← hexDigitValue? c) :: (← patternDigits? rest)

/-- The number in the digits of a pattern, of which there is at least one. -/
def patternNumber? (s : List Char) : Option Nat :=
  match patternDigits? (foldDigits s) with
  | some (d :: ds) => some (ofDigits 16 (d :: ds))
  | _ => none

/-- What a text is entered for: a pattern of some layout, or the double of a decimal numeral. -/
inductive Entry where
  | pattern (n : Int)
  | value (double : Nat)
deriving DecidableEq, Repr

/-- The entry in a text that has no blanks around it. -/
def Entry.ofText (text : List Char) : Except EntryError Entry :=
  match splitPattern? text with
  | some (negative, digits) =>
      match patternNumber? digits with
      | none => .error (.invalidPattern (String.ofList text))
      | some n => .ok (.pattern (if negative then -(n : Int) else n))
  | none =>
      match Decimal.Numeral.ofChars? text with
      | none => .error (.invalidValue (String.ofList text))
      | some numeral => .ok (.value numeral.toDouble)

/-- Read an entered value: its pattern and the layout that this belongs to. -/
def parse (text : String) (L : Layout) : Except EntryError (Nat × Layout) :=
  let stripped := strip text.toList
  match Entry.ofText stripped with
  | .error e => .error e
  | .ok (.pattern n) =>
      if L.Fits n then .ok (n.toNat, L)
      else .error (.doesNotFit (String.ofList stripped) L.name L.width)
  | .ok (.value double) => .ok (double, .double)

end HalfPrecision.Inspect
