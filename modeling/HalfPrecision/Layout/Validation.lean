import HalfPrecision.Capacity
import HalfPrecision.Conversion
import HalfPrecision.Text.Integer
import HalfPrecision.Text.Lowercase

/-!
# Layouts from names and from untyped values

Each built-in layout has four names. Blanks around a name and its case do not matter.

A layout may be given by untyped values for its name, width, field widths and bias. They are checked
in two stages. First each value is read by itself: the name must be a text, the others integers, and
the widths positive; all offending values are listed. Only if there is none must the widths add up
and the bias be the one that the exponent field implies, the widths first. An exponent field may be
too wide for its bias to be made.
-/

namespace HalfPrecision

/-- An untyped value; a number with a point or an exponent is the pattern of a double. -/
inductive Untyped where
  | null
  | bool (b : Bool)
  | integer (n : Int)
  | double (pattern : Nat)
  | text (s : String)
  | list
  | object
deriving DecidableEq, Repr

namespace Layout

def aliases : List (String × Layout) := [
  ("half", half), ("f16", half), ("float16", half), ("binary16", half),
  ("single", single), ("f32", single), ("float32", single), ("binary32", single),
  ("double", double), ("f64", double), ("float64", double), ("binary64", double)]

/-- The layout that bears a name. -/
def ofName? (name : String) : Option Layout := aliases.lookup name

/-- The layout that a text names. -/
def ofAlias? (text : String) : Option Layout :=
  ofName? (String.ofList (Text.lower (Text.strip text.toList)))

inductive Parameter where
  | name
  | width
  | exponentBits
  | mantissaBits
  | bias
deriving DecidableEq, Repr

def Parameter.label : Parameter → String
  | name => "name"
  | width => "width"
  | exponentBits => "exponent_bits"
  | mantissaBits => "mantissa_bits"
  | bias => "bias"

/-- What is wrong with a value by itself. -/
inductive Defect where
  | missing
  | notText
  | notInteger
  | fractional
  | notFinite
  | unreadable
  | overlong
  | notPositive
deriving DecidableEq, Repr

namespace Defect

def kind : Defect → String
  | missing => "missing"
  | notText => "string_type"
  | notInteger => "int_type"
  | fractional => "int_from_float"
  | notFinite => "finite_number"
  | unreadable => "int_parsing"
  | overlong => "int_parsing_size"
  | notPositive => "greater_than"

def message : Defect → String
  | missing => "Field required"
  | notText => "Input should be a valid string"
  | notInteger => "Input should be a valid integer"
  | fractional => "Input should be a valid integer, got a number with a fractional part"
  | notFinite => "Input should be a finite number"
  | unreadable => "Input should be a valid integer, unable to parse string as an integer"
  | overlong => "Unable to parse input string as an integer, exceeded maximum size"
  | notPositive => "Input should be greater than 0"

end Defect

/-- What is wrong with values that are each right by themselves. -/
inductive Inconsistency where
  | width (name : String) (exponentBits mantissaBits given : Nat)
  | bias (name : String) (exponentBits : Nat) (given : Int)
deriving DecidableEq, Repr

/-- What there is to say of an inconsistency, if its numbers can be written out. -/
def Inconsistency.text (capacity : Capacity) : Inconsistency → Except DigitsExceeded String
  | width name exponentBits mantissaBits given => do
      let exponentBits ← capacity.decimal exponentBits
      let mantissaBits ← capacity.decimal mantissaBits
      let given ← capacity.decimal given
      return s!"{name}: 1 + {exponentBits} + {mantissaBits} bits != width {given}"
  | bias name exponentBits given => do
      let given ← capacity.decimal given
      let implied ← capacity.decimal (biasOf exponentBits)
      return s!"{name}: bias {given} != {implied}"

/-- The message for an inconsistency, or for numbers in it that are too long to be written out. -/
def Inconsistency.message (capacity : Capacity) (cause : Inconsistency) : String :=
  "Value error, " ++
    match cause.text capacity with
    | .ok text => text
    | .error e => e.message

/-- Why values do not make a layout: defects of single values, an inconsistency of them all, or a
bias that cannot be made to compare with. -/
inductive Rejection where
  | defects (found : List (Parameter × Defect))
  | inconsistent (cause : Inconsistency)
  | beyondCapacity (cause : CapacityError)
deriving DecidableEq, Repr

/-- The values given for a layout; `none` where no value is given. -/
structure Candidate where
  name : Option Untyped := none
  width : Option Untyped := none
  exponentBits : Option Untyped := none
  mantissaBits : Option Untyped := none
  bias : Option Untyped := none

def readText : Option Untyped → Except Defect String
  | some (.text s) => .ok s
  | some _ => .error .notText
  | none => .error .missing

/-- Doubles are taken for integers strictly between this and its negative. -/
def doubleLimit : Int := 0x8000000000000000

/-- The integer that a value stands for. -/
def readInteger : Option Untyped → Except Defect Int
  | none => .error .missing
  | some (.integer n) => .ok n
  | some (.bool b) => .ok b.toNat
  | some (.text s) =>
      match Text.Integer.ofText s with
      | .ok n => .ok n
      | .error .unreadable => .error .unreadable
      | .error .overlong => .error .overlong
  | some (.double pattern) =>
      match Layout.double.integer? pattern with
      | some n => if -doubleLimit < n ∧ n < doubleLimit then .ok n else .error .overlong
      | none => .error <|
          if (Layout.double.fields pattern).exponent = Layout.double.exponentMax then .notFinite
          else .fractional
  | some _ => .error .notInteger

/-- A positive integer with what is known of it. -/
def readPositive (value : Option Untyped) : Except Defect { n : Nat // 0 < n } :=
  match readInteger value with
  | .ok n => if h : 0 < n.toNat then .ok ⟨n.toNat, h⟩ else .error .notPositive
  | .error defect => .error defect

/-- The defect of one value as a list. -/
def defectsOf {α : Type} (parameter : Parameter) : Except Defect α → List (Parameter × Defect)
  | .ok _ => []
  | .error defect => [(parameter, defect)]

variable (capacity : Capacity)

/-- The layout of consistent values. -/
def ofValues (name : String) (width : Nat) (exponentBits mantissaBits : { n : Nat // 0 < n })
    (bias : Int) : Except Rejection Layout :=
  if 1 + exponentBits.1 + mantissaBits.1 ≠ width then
    .error (.inconsistent (.width name exponentBits.1 mantissaBits.1 width))
  else
    match capacity.checkShift 1 (exponentBits.1 - 1) with
    | .error cause => .error (.beyondCapacity cause)
    | .ok () =>
        if bias ≠ biasOf exponentBits.1 then
          .error (.inconsistent (.bias name exponentBits.1 bias))
        else .ok {
          name
          exponentBits := exponentBits.1
          mantissaBits := mantissaBits.1
          exponentBits_pos := exponentBits.2
          mantissaBits_pos := mantissaBits.2 }

def Candidate.validate (c : Candidate) : Except Rejection Layout :=
  match readText c.name, readPositive c.width, readPositive c.exponentBits,
    readPositive c.mantissaBits, readInteger c.bias with
  | .ok name, .ok width, .ok exponentBits, .ok mantissaBits, .ok bias =>
      ofValues capacity name width.1 exponentBits mantissaBits bias
  | name, width, exponentBits, mantissaBits, bias =>
      .error <| .defects <|
        defectsOf .name name ++ defectsOf .width width ++ defectsOf .exponentBits exponentBits ++
          defectsOf .mantissaBits mantissaBits ++ defectsOf .bias bias

end Layout

end HalfPrecision
