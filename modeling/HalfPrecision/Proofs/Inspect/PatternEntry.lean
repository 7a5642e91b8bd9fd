import HalfPrecision.Inspect.Display
import HalfPrecision.Proofs.Inspect.Description
import HalfPrecision.Proofs.Text.DigitRow
import HalfPrecision.Proofs.Text.Span

/-!
# Entered patterns

A pattern is entered in hexadecimal digits after `0x`, with blanks around it, and is read as the
number in the digits if that fits the layout. With a minus sign only zero fits. What is displayed for
a pattern that fits is read back.
-/

namespace HalfPrecision.Inspect

open Text

/-- A number in hexadecimal digits after `0x` in either case, and the number. An underscore may stand
after the `0x` too. -/
inductive PatternText : List Char → Nat → Prop
  | joined {x : Char} {s : List Char} {ds : List Nat} :
      x = 'x' ∨ x = 'X' → DigitRow hexValue? s ds → PatternText ('0' :: x :: s) (ofDigits 16 ds)
  | spaced {x : Char} {s : List Char} {ds : List Nat} :
      x = 'x' ∨ x = 'X' → DigitRow hexValue? s ds →
      PatternText ('0' :: x :: '_' :: s) (ofDigits 16 ds)

theorem patternDigits?_cons {c : Char} {d : Nat} (h : hexDigitValue? c = some d) (s : List Char) :
    patternDigits? (c :: s) = (patternDigits? s).map (d :: ·) := by
  rw [patternDigits?]
  · rw [h]
    cases patternDigits? s <;> rfl
  · rintro _ _ rfl -
    cases h

theorem patternDigits?_underscore {c : Char} {d : Nat} (h : hexDigitValue? c = some d)
    (s : List Char) : patternDigits? ('_' :: c :: s) = patternDigits? (c :: s) := by
  rw [patternDigits?_cons h, patternDigits?, h]
  cases patternDigits? s <;> rfl

section Rows

variable {s : List Char} {ds : List Nat} (h : DigitRow hexValue? s ds)

include h

/-- An underscore in front of a row does not matter. -/
theorem patternDigits?_underscore_foldDigits :
    patternDigits? ('_' :: foldDigits s) = patternDigits? (foldDigits s) := by
  obtain ⟨c, d, rest, _, hc, rfl, -⟩ := h.exists_cons
  obtain ⟨ascii, hascii, hfold⟩ := foldDigits_cons_hex hc rest
  rw [hfold, patternDigits?_underscore hascii]

theorem patternDigits?_foldDigits : patternDigits? (foldDigits s) = some ds := by
  have hunderscore : digitValue? '_' = none := by decide
  induction h with
  | one hc =>
    obtain ⟨ascii, hascii, hfold⟩ := foldDigits_cons_hex hc []
    rw [hfold, patternDigits?_cons hascii]
    rfl
  | @next c d s ds hc _ ih =>
    obtain ⟨ascii, hascii, hfold⟩ := foldDigits_cons_hex hc s
    rw [hfold, patternDigits?_cons hascii, ih, Option.map_some]
  | @group c d s ds hc hrow ih =>
    obtain ⟨ascii, hascii, hfold⟩ := foldDigits_cons_hex hc ('_' :: s)
    rw [hfold, patternDigits?_cons hascii, foldDigits_cons_other hunderscore,
      patternDigits?_underscore_foldDigits hrow, ih, Option.map_some]

end Rows

variable {s : List Char} {z : Nat}

/-- A pattern is split after its `0x`, and its number is read from the rest. -/
theorem PatternText.exists_splitPattern? (h : PatternText s z) :
    ∃ rest, splitPattern? s = some (false, rest) ∧ splitPattern? ('-' :: s) = some (true, rest) ∧
      patternNumber? rest = some z := by
  have hnumber {text : List Char} {ds : List Nat} (hds : ds ≠ [])
      (hdigits : patternDigits? (foldDigits text) = some ds) :
      patternNumber? text = some (ofDigits 16 ds) := by
    obtain ⟨d, rest, rfl⟩ := List.exists_cons_of_ne_nil hds
    rw [patternNumber?, hdigits]
  have hunderscore : digitValue? '_' = none := by decide
  cases h with
  | @joined x s ds hx hrow =>
    refine ⟨s, ?_, ?_, hnumber hrow.ne_nil (patternDigits?_foldDigits hrow)⟩
    all_goals rcases hx with rfl | rfl <;> rfl
  | @spaced x s ds hx hrow =>
    refine ⟨'_' :: s, ?_, ?_, hnumber hrow.ne_nil ?_⟩
    · rcases hx with rfl | rfl <;> rfl
    · rcases hx with rfl | rfl <;> rfl
    · rw [foldDigits_cons_other hunderscore, patternDigits?_underscore_foldDigits hrow,
        patternDigits?_foldDigits hrow]

/-- A pattern ends with a digit. -/
theorem PatternText.exists_getLast? (h : PatternText s z) :
    ∃ c d, hexValue? c = some d ∧ s.getLast? = some c := by
  cases h with
  | joined _ hrow =>
    obtain ⟨c, d, hc, hlast⟩ := hrow.exists_getLast?
    exact ⟨c, d, hc, by simp [List.getLast?_cons, hlast]⟩
  | spaced _ hrow =>
    obtain ⟨c, d, hc, hlast⟩ := hrow.exists_getLast?
    exact ⟨c, d, hc, by simp [List.getLast?_cons, hlast]⟩

theorem PatternText.exists_cons (h : PatternText s z) : ∃ rest, s = '0' :: rest := by
  cases h with
  | joined => exact ⟨_, rfl⟩
  | spaced => exact ⟨_, rfl⟩

section Blanks

variable {before sign after : List Char} {n : Int} (h : PatternText s z)
  (hsign : sign = [] ∧ n = z ∨ sign = ['-'] ∧ n = -z)
  (hbefore : ∀ c ∈ before, isBlank c) (hafter : ∀ c ∈ after, isBlank c)

include h hsign

theorem PatternText.ofText_eq_ok : Entry.ofText (sign ++ s) = .ok (.pattern n) := by
  obtain ⟨rest, hsplit, hsplit', hnumber⟩ := h.exists_splitPattern?
  obtain ⟨rfl, rfl⟩ | ⟨rfl, rfl⟩ := hsign
  · rw [List.nil_append, Entry.ofText, hsplit]
    simp only [hnumber]
    rfl
  · rw [List.singleton_append, Entry.ofText, hsplit']
    simp only [hnumber]
    rfl

include hbefore hafter

/-- Blanks around a pattern are stripped, and nothing else. -/
theorem PatternText.strip_append : strip (before ++ (sign ++ s) ++ after) = sign ++ s := by
  obtain ⟨rest, rfl⟩ := h.exists_cons
  obtain ⟨c, d, hc, hlast⟩ := h.exists_getLast?
  have hne : sign ++ '0' :: rest ≠ [] := List.append_ne_nil_of_right_ne_nil _ (List.cons_ne_nil _ _)
  refine trim_append hbefore hafter ?_ ?_ hne
  · obtain ⟨rfl, -⟩ | ⟨rfl, -⟩ := hsign <;> simp [isBlank, isWhiteSpace]
  · rw [List.getLast?_append_of_ne_nil _ (List.cons_ne_nil _ _), hlast]
    rintro _ ⟨⟩
    exact isBlank_of_hexValue? hc

/-- A pattern is read if its number fits. -/
theorem PatternText.parse_eq (L : Layout) :
    parse (String.ofList (before ++ (sign ++ s) ++ after)) L =
      if L.Fits n then .ok (n.toNat, L)
      else .error (.doesNotFit (String.ofList (sign ++ s)) L.name L.width) := by
  rw [parse, String.toList_ofList, h.strip_append hsign hbefore hafter, h.ofText_eq_ok hsign]

end Blanks

theorem fits_natCast_iff (L : Layout) (n : Nat) : L.Fits n ↔ n < 2 ^ L.width :=
  ⟨fun h => Int.ofNat_lt.1 h.2, Layout.fits_natCast⟩

theorem fits_neg_natCast_iff (L : Layout) (n : Nat) : L.Fits (-n : Int) ↔ n = 0 := by
  constructor
  · intro h
    have := h.1
    omega
  · rintro rfl
    exact Layout.fits_natCast (Nat.two_pow_pos _)

/-- What is displayed for a number is a pattern of that number. -/
theorem exists_formatHex_eq (L : Layout) (z : Nat) :
    ∃ s, PatternText s z ∧ formatHex L z = String.ofList s := by
  obtain ⟨ds, hrow, hnumber⟩ :=
    exists_digitRow_paddedNumeral (by decide) hexValue?_digitChar (L.width / 4) z
  refine ⟨_, hnumber ▸ PatternText.joined (.inl rfl) hrow, ?_⟩
  rw [formatHex, hexText_natCast]

/-- A pattern in hexadecimal is read as its number if that has no bits beyond the word of the layout,
and refused otherwise; after a minus sign only zero is read. Case, zeros in front, underscores and
blanks around the pattern do not matter. What is displayed for a pattern of the layout is read as
that pattern. -/
theorem parse_pattern (L : Layout) :
    (∀ {s before after : List Char} {z : Nat}, PatternText s z → (∀ c ∈ before, isBlank c) →
      (∀ c ∈ after, isBlank c) →
        parse (String.ofList (before ++ s ++ after)) L =
          (if z < 2 ^ L.width then .ok (z, L)
          else .error (.doesNotFit (String.ofList s) L.name L.width)) ∧
        parse (String.ofList (before ++ '-' :: s ++ after)) L =
          if z = 0 then .ok (0, L)
          else .error (.doesNotFit (String.ofList ('-' :: s)) L.name L.width)) ∧
    ∀ z : Nat, z < 2 ^ L.width → parse (formatHex L z) L = .ok (z, L) ∧
      ∀ (capacity : Capacity) (shown : String), formatHexWithin capacity L z = .ok shown →
        parse shown L = .ok (z, L) := by
  have hread {s before after : List Char} {z : Nat} (h : PatternText s z)
      (hbefore : ∀ c ∈ before, isBlank c) (hafter : ∀ c ∈ after, isBlank c) :
      parse (String.ofList (before ++ s ++ after)) L =
        if z < 2 ^ L.width then .ok (z, L)
        else .error (.doesNotFit (String.ofList s) L.name L.width) := by
    have hparse := h.parse_eq (.inl ⟨rfl, rfl⟩) hbefore hafter L
    simpa only [List.nil_append, fits_natCast_iff, Int.toNat_natCast] using hparse
  refine ⟨fun {s before after z} h hbefore hafter => ⟨hread h hbefore hafter, ?_⟩, ?_⟩
  · have hparse := h.parse_eq (.inr ⟨rfl, rfl⟩) hbefore hafter L
    simp only [fits_neg_natCast_iff, List.singleton_append] at hparse
    rw [hparse]
    split
    next hzero =>
      rw [hzero]
      rfl
    next => rfl
  · intro z hz
    obtain ⟨s, htext, hshown⟩ := exists_formatHex_eq L z
    have hnone : ∀ c ∈ [], isBlank c = true := by simp
    have hparse := hread htext hnone hnone
    rw [List.nil_append, List.append_nil, ← hshown, if_pos hz] at hparse
    refine ⟨hparse, ?_⟩
    intro capacity shown hwithin
    rw [formatHexWithin] at hwithin
    cases hwidth : capacity.checkWidth (L.width / 4) with
    | error =>
      rw [hwidth] at hwithin
      cases hwithin
    | ok =>
      rw [hwidth] at hwithin
      obtain rfl := Except.ok.inj hwithin
      exact hparse

/-- Zeros of two scripts, underscores and digits in both cases between two kinds of blanks. -/
theorem parse_pattern_scripts :
    PatternText ['0', 'X', '_', '0', '٠', '_', 'f', 'F'] 255 ∧
      parse "\u2003 0X_0٠_fF\n" .half = .ok (255, .half) ∧
      parse "\u2003 -0X_0٠_fF\n" .half = .error (.doesNotFit "-0X_0٠_fF" "half" 16) ∧
      parse (formatHex .half 255) .half = .ok (255, .half) := by
  have htext : PatternText ['0', 'X', '_', '0', '٠', '_', 'f', 'F'] (ofDigits 16 [0, 0, 15, 15]) :=
    .spaced (.inr rfl) (.next rfl (.group rfl (.next rfl (.one rfl))))
  obtain ⟨htexts, hdisplayed⟩ := parse_pattern .half
  have hbefore : ∀ c ∈ ['\u2003', ' '], isBlank c = true := by simp [isBlank, isWhiteSpace]
  have hafter : ∀ c ∈ ['\n'], isBlank c = true := by simp [isBlank, isWhiteSpace]
  obtain ⟨hplain, hminus⟩ := htexts htext hbefore hafter
  exact ⟨htext, hplain, hminus, (hdisplayed 255 (by decide)).1⟩

end HalfPrecision.Inspect
