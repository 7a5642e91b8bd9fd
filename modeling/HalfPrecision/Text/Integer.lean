import HalfPrecision.Text

/-!
# Integers in texts

A plain integer is a minus sign, if there is one, and digits of which the first is a zero only if it
is the only one. A text that is not plain is tidied up: white space around it, a plus sign, zeros in
front, a fraction of zeros and single underscores are dropped. What remains must be plain. A text
that starts as a plain integer of too many characters is refused for its length before that.
-/

namespace HalfPrecision.Text.Integer

/-- Why no integer is read from a text. -/
inductive Fault where
  | unreadable
  | overlong
deriving DecidableEq, Repr

/-- The greatest number of characters of an integer, counting its sign. -/
def sizeLimit : Nat := 4300

/-- Whether a text starts with a minus sign, and what follows that. -/
def splitMinus : List Char → Bool × List Char
  | '-' :: rest => (true, rest)
  | s => (false, s)

/-- The integer in a plain text. Sign and digits are too long whatever follows them. -/
def ofPlain (s : List Char) : Except Fault Int :=
  let (negative, unsigned) := splitMinus s
  let (ds, rest) := unsigned.span Char.isDigit
  let size := ds.length + negative.toNat
  if ds.isEmpty || (ds.head? = some '0' && ds.length ≠ 1) then .error .unreadable
  else if size > sizeLimit then .error .overlong
  else if !rest.isEmpty then .error .unreadable
  else
    let n : Int := ofDigits 10 (ds.map fun c => c.toNat - 48)
    .ok (if negative then -n else n)

/-- What follows zeros of which `last` was the last character. Underscores may stand among them, and
a minus sign may follow them; the last character stays if nothing else is left before a point. -/
def afterZeros? (last : Char) : List Char → Option (List Char)
  | [] => some [last]
  | c :: rest =>
      if c = '0' || c = '_' then afterZeros? c rest
      else if c.isDigit || c = '-' then some (c :: rest)
      else if c = '.' then some (last :: c :: rest)
      else none

/-- A text without the zeros in front. -/
def dropZeros? : List Char → Option (List Char)
  | [] => none
  | c :: rest =>
      if c = '0' then afterZeros? c rest
      else if c.isDigit || c = '-' then some (c :: rest)
      else none

/-- A text without the point and the zeros that end it. -/
def dropFraction (s : List Char) : List Char :=
  match s.span (· ≠ '.') with
  | (whole, _ :: digit :: rest) => if (digit :: rest).all (· = '0') then whole else s
  | _ => s

/-- A text without underscores, each of which stands after and before another character. -/
def dropUnderscores? (afterOther : Bool) : List Char → Option (List Char)
  | [] => if afterOther then some [] else none
  | c :: rest =>
      if c = '_' then if afterOther then dropUnderscores? false rest else none
      else (dropUnderscores? true rest).map (c :: ·)

/-- What remains of a text without its sign when it is tidied up. -/
def tidyUnsigned? (s : List Char) : Option (List Char) := do
  dropUnderscores? false (dropFraction (← dropZeros? s))

/-- What remains of a text when it is tidied up. No minus sign follows a plus sign. -/
def tidy? (s : List Char) : Option (List Char) :=
  match trim isWhiteSpace s with
  | '-' :: rest => (tidyUnsigned? rest).map ('-' :: ·)
  | '+' :: '-' :: _ => none
  | '+' :: rest => tidyUnsigned? rest
  | rest => tidyUnsigned? rest

/-- The integer in a text. -/
def ofText (s : String) : Except Fault Int :=
  match ofPlain s.toList with
  | .error .unreadable =>
      match (tidy? s.toList).map ofPlain with
      | some (.ok n) => .ok n
      | _ => .error .unreadable
  | result => result

end HalfPrecision.Text.Integer
