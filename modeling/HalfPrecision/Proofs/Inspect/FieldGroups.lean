import HalfPrecision.Proofs.Inspect.HexOrder
import HalfPrecision.Proofs.Layout.Masks

/-!
# The fields of a pattern in binary

The text of the fields is split at its spaces into one group of binary digits for each field. A group
has a digit for each bit of its field, so the digits of all groups in a row are those of the word.
-/

namespace HalfPrecision.Inspect

open Text

variable (L : Layout) (bits : Int)

section Digits

end Digits

variable {L bits}

end HalfPrecision.Inspect
