import HalfPrecision.CommandLine.Arguments
import HalfPrecision.Log
import HalfPrecision.Proofs.CommandLine.Withdrawal
import HalfPrecision.Proofs.Text.Lowercase

/-!
# Values after a double dash

The name of a layout does not start with a dash, in whatever case it is written, and the name of a
level does not either. So each is taken for the argument of its option, and a double dash after both
makes values of all that follows, whatever it looks like.
-/

namespace HalfPrecision.CommandLine

open Text

/-- Whether a text starts with a dash, as the names of options do. -/
def StartsWithDash (text : String) : Prop := text.toList.head? = some '-'

instance (text : String) : Decidable (StartsWithDash text) := inferInstanceAs (Decidable (_ = _))

theorem StartsWithDash.lower {text : String} (h : StartsWithDash text) :
    StartsWithDash (String.ofList (Text.lower text.toList)) := by
  obtain ⟨rest, hrest⟩ := List.head?_eq_some_iff.1 h
  have hlower : lowerAfter [] text.toList = '-' :: _ :=
    (lowerAfter_eq_cons_iff (.inl rfl)).2 ⟨'-', rest, hrest, .inl rfl, rfl⟩
  rw [StartsWithDash, String.toList_ofList, Text.lower, hlower]
  rfl

theorem StartsWithDash.capital {text : String} (h : StartsWithDash text) :
    StartsWithDash (String.ofList (text.toList.map Log.Level.capital)) := by
  rw [StartsWithDash, String.toList_ofList, List.head?_map, h]
  rfl

end HalfPrecision.CommandLine
