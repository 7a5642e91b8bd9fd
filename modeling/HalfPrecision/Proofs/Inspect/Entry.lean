import HalfPrecision.Inspect.Entry
import HalfPrecision.Proofs.Layout.Magnitude
import HalfPrecision.Proofs.Text.Lowercase

/-!
# Entered values fit their layouts

What a text is entered for is seen from its start in lower case: a bit pattern belongs to the given
layout, everything else is a double. Either way a text that is read gives a pattern that has no bits
beyond the word.
-/

namespace HalfPrecision

namespace Decimal

theorem nearestDouble_le_infinity (digits : Nat) (exponent : Int) :
    nearestDouble digits exponent ≤ Layout.double.infinity := by
  unfold nearestDouble
  split
  · exact Nat.zero_le _
  split
  · exact le_rfl
  split
  · exact Nat.zero_le _
  · unfold Layout.nearest
    split
    · exact Nat.zero_le _
    · exact Nat.min_le_right _ _

theorem Numeral.toDouble_lt (n : Numeral) : n.toDouble < 2 ^ Layout.double.width := by
  obtain ⟨negative, magnitude⟩ := n
  apply Layout.signed_lt (Bool.toNat_lt negative)
  cases magnitude with
  | finite digits exponent =>
    exact (nearestDouble_le_infinity digits exponent).trans_lt Layout.double.infinity_lt_signMask
  | infinity => exact Layout.double.infinity_lt_signMask
  | nan => exact Layout.double.quietNan_lt_signMask

end Decimal

namespace Inspect

open Text

/-- Whether a text starts with `0x` in either case, or with a minus sign and `0x`. -/
def StartsAsPattern (s : List Char) : Prop :=
  ['0', 'x'] <+: lower s ∨ ['-', '0', 'x'] <+: lower s

instance (s : List Char) : Decidable (StartsAsPattern s) := inferInstanceAs (Decidable (_ ∨ _))

theorem prefix_lowerAfter_iff {before s : List Char} :
    ['0', 'x'] <+: lowerAfter before s ↔
      ∃ c rest, s = '0' :: c :: rest ∧ (c = 'x' ∨ c = 'X') := by
  have hzero : IsMark '0' := by decide
  have hx : IsMark 'x' := by decide
  rw [cons_prefix_lowerAfter_iff hzero]
  constructor
  · rintro ⟨c, _, rfl, hc, hmore⟩
    obtain ⟨d, rest, rfl, hd, _⟩ := (cons_prefix_lowerAfter_iff hx).1 hmore
    obtain rfl : c = '0' := by simpa [LowersTo] using hc
    exact ⟨d, rest, rfl, by simpa [LowersTo] using hd⟩
  · rintro ⟨d, rest, rfl, hd⟩
    refine ⟨'0', _, rfl, .inl rfl, (cons_prefix_lowerAfter_iff hx).2 ?_⟩
    exact ⟨d, rest, rfl, by simpa [LowersTo] using hd, List.nil_prefix⟩

/-- A text is split as a pattern exactly if it starts as one in lower case. -/
theorem isSome_splitPattern?_iff (s : List Char) :
    (splitPattern? s).isSome ↔ StartsAsPattern s := by
  have hminus : IsMark '-' := by decide
  constructor
  · intro h
    unfold splitPattern? at h
    split at h
    next x rest =>
      refine .inr ((cons_prefix_lowerAfter_iff hminus).2 ⟨'-', _, rfl, .inl rfl, ?_⟩)
      exact prefix_lowerAfter_iff.2 ⟨x, rest, rfl, by simpa using h⟩
    next x rest => exact .inl (prefix_lowerAfter_iff.2 ⟨x, rest, rfl, by simpa using h⟩)
    next => exact absurd h Bool.false_ne_true
  · rintro (h | h)
    · obtain ⟨c, rest, rfl, hc⟩ := prefix_lowerAfter_iff.1 h
      simp [splitPattern?, hc]
    · obtain ⟨c, _, rfl, hc, hmore⟩ := (cons_prefix_lowerAfter_iff hminus).1 h
      obtain ⟨d, rest, rfl, hd⟩ := prefix_lowerAfter_iff.1 hmore
      obtain rfl : c = '-' := by simpa [LowersTo] using hc
      simp [splitPattern?, hd]

/-- What a text is entered for is seen from its start. -/
theorem Entry.ofText_eq_ok {s : List Char} {entry : Entry} (h : Entry.ofText s = .ok entry) :
    (∃ n, entry = .pattern n ∧ StartsAsPattern s) ∨
      ∃ numeral : Decimal.Numeral, entry = .value numeral.toDouble ∧ ¬ StartsAsPattern s := by
  have hstart := isSome_splitPattern?_iff s
  unfold Entry.ofText at h
  split at h
  next negative digits hsplit =>
    split at h
    · cases h
    next n hnumber =>
      cases h
      exact .inl ⟨_, rfl, hstart.1 (by rw [hsplit]; rfl)⟩
  next hsplit =>
    split at h
    · cases h
    next numeral hnumeral =>
      cases h
      refine .inr ⟨numeral, rfl, fun hpattern => ?_⟩
      rw [← hstart, hsplit] at hpattern
      exact absurd hpattern Bool.false_ne_true

/-- A text that is read gives a pattern of the layout that its start calls for, and the pattern fits
that layout. -/
theorem parse_eq_ok {text : String} {L own : Layout} {bits : Nat}
    (h : parse text L = .ok (bits, own)) :
    own = (if StartsAsPattern (strip text.toList) then L else .double) ∧
      bits < 2 ^ own.width := by
  unfold parse at h
  simp only at h
  split at h
  · cases h
  next n hentry =>
    split at h
    next hfits =>
      cases h
      obtain ⟨_, _, hstart⟩ | ⟨_, hvalue, _⟩ := Entry.ofText_eq_ok hentry
      · refine ⟨(if_pos hstart).symm, ?_⟩
        have := hfits.1
        have := hfits.2
        omega
      · cases hvalue
    · cases h
  next double hentry =>
    cases h
    obtain ⟨_, hpattern, _⟩ | ⟨numeral, hvalue, hstart⟩ := Entry.ofText_eq_ok hentry
    · cases hpattern
    · cases hvalue
      exact ⟨(if_neg hstart).symm, numeral.toDouble_lt⟩

end Inspect

end HalfPrecision
