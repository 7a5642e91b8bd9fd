import HalfPrecision.Proofs.CommandLine.DoubleDash
import HalfPrecision.Proofs.CommandLine.Ending

/-!
# What the inspector shows

The output is made of the blocks of the values in their order: the text as it was entered, the lines
of its description, and an empty line. It ends with the block before the first text that is not
read, and that text is complained of. Every text before it stands for itself, so the blocks do not
depend on each other.
-/

namespace HalfPrecision.CommandLine

open Inspect Text

/-- A value that was read and shown: its text, its pattern and the layout of that, and the lines of
the description. -/
structure Shown where
  text : String
  bits : Nat
  own : Layout
  description : List String

namespace Shown

def record (shown : Shown) : Log.Record := entryRecord shown.text shown.own shown.bits

end Shown

section Values

variable {p : Platform} {L : Layout} (threshold : Log.Level)

end Values

section Run

variable {cell : ProbeCell} {p : Platform} {L : Layout} {level : String} {threshold : Log.Level}
  {arguments texts : List String} (hcell : cell.get.answer = .ok p)
  (hlevel : Log.Level.ofName? level = some threshold)
  (hrequest : Request.ofArguments arguments =
    .ok (.inspect { source := some L, logLevel := some level, values := texts }))

include hcell hlevel hrequest

end Run

end HalfPrecision.CommandLine
