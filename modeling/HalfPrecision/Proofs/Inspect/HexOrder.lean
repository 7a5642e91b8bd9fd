import HalfPrecision.Inspect.Display
import HalfPrecision.Proofs.Text.PaddedNumeral

/-!
# Patterns in hexadecimal and their order

A pattern in hexadecimal is filled up to one digit for each four whole bits of the word. Where bits
are left over, the greatest patterns need one digit more, and texts of two lengths are not ordered
as their patterns are. In all other layouts they are. A word of three bits has no four of them, but
every text has a digit, and one is enough for it.
-/

namespace HalfPrecision.Inspect

open Text

variable (L : Layout)

theorem toList_formatHex (n : Nat) :
    (formatHex L n).toList = '0' :: 'x' :: paddedNumeral 16 (L.width / 4) n := by
  rw [formatHex, String.toList_ofList, hexText_natCast]

theorem length_formatHex (n : Nat) :
    (formatHex L n).length = 2 + max (L.width / 4) (digits 16 n).length := by
  rw [← String.length_toList, toList_formatHex, List.length_cons, List.length_cons,
    length_paddedNumeral, length_paddedDigits]
  omega

theorem formatHex_lt_iff (p q : Nat) :
    (formatHex L p).toList < (formatHex L q).toList ↔
      paddedNumeral 16 (L.width / 4) p < paddedNumeral 16 (L.width / 4) q := by
  simp [toList_formatHex]

/-- Whether the digits for each four whole bits suffice for all patterns. -/
def IsEvenlyCut : Prop := L.width % 4 = 0 ∨ L.width < 4

variable {L}

/-- Where the digits suffice, all patterns have texts of one length. -/
theorem IsEvenlyCut.length_formatHex (h : IsEvenlyCut L) {n : Nat} (hn : n < 2 ^ L.width) :
    (formatHex L n).length = 2 + max (L.width / 4) 1 := by
  have hbits : L.width ≤ 4 * max (L.width / 4) 1 := by
    rcases h with h | h <;> omega
  have hpow : n < 16 ^ max (L.width / 4) 1 :=
    calc n < 2 ^ L.width := hn
      _ ≤ 2 ^ (4 * max (L.width / 4) 1) := Nat.pow_le_pow_right Nat.two_pos hbits
      _ = 16 ^ max (L.width / 4) 1 := Nat.pow_mul 2 4 _
  have hle := (length_digits_le_iff (by decide) (by omega) n).2 hpow
  have hpos : 0 < (digits 16 n).length := List.length_pos_iff.2 (digitsOnto_ne_nil n [])
  rw [Inspect.length_formatHex]
  omega

theorem IsEvenlyCut.formatHex_lt (h : IsEvenlyCut L) {p q : Nat} (hpq : p < q)
    (hq : q < 2 ^ L.width) : (formatHex L p).toList < (formatHex L q).toList := by
  have hlength := (h.length_formatHex (hpq.trans hq)).trans (h.length_formatHex hq).symm
  rw [← String.length_toList, ← String.length_toList, toList_formatHex, toList_formatHex,
    List.length_cons, List.length_cons, List.length_cons, List.length_cons] at hlength
  rw [formatHex_lt_iff]
  exact paddedNumeral_lt_paddedNumeral (by decide) (by decide) (by omega) hpq

/-- Where bits are left over, the least pattern with a digit for them is shown by a longer text, and
in front of a lesser pattern that begins with a two. -/
theorem exists_misplaced (h : ¬ IsEvenlyCut L) :
    ∃ p q : Nat, p < q ∧ q < 2 ^ L.width ∧ (formatHex L p).length < (formatHex L q).length ∧
      (formatHex L q).toList < (formatHex L p).toList := by
  obtain ⟨hrest, hwidth⟩ := not_or.1 h
  obtain ⟨k, hk⟩ := Nat.exists_eq_succ_of_ne_zero (show L.width / 4 ≠ 0 by omega)
  have hp : digits 16 (2 * 16 ^ k) = 2 :: List.replicate k 0 := by
    rw [digits, digitsOnto_mul_pow (by decide) (by decide) (by decide), List.append_nil]
  have hq : digits 16 (1 * 16 ^ (k + 1)) = 1 :: List.replicate (k + 1) 0 := by
    rw [digits, digitsOnto_mul_pow (by decide) (by decide) (by decide), List.append_nil]
  refine ⟨2 * 16 ^ k, 1 * 16 ^ (k + 1), ?_, ?_, ?_, ?_⟩
  · rw [Nat.pow_succ]
    have := Nat.pow_pos (n := k) (show 0 < 16 by decide)
    omega
  · calc 1 * 16 ^ (k + 1) = 2 ^ (4 * (k + 1)) := by rw [Nat.one_mul, Nat.pow_mul]
      _ < 2 ^ L.width := Nat.pow_lt_pow_right Nat.one_lt_two (by omega)
  · rw [length_formatHex, length_formatHex, hp, hq]
    simp
    omega
  · rw [formatHex_lt_iff, paddedNumeral_eq_map, paddedNumeral_eq_map, paddedDigits, paddedDigits,
      hp, hq, hk]
    simp [List.leftpad, List.cons_lt_cons_iff, digitChar]

/-- The texts of all patterns have one length, and the order of their characters is that of the
patterns, in the layouts whose words have no bits left over or less than four bits, and in no
others. -/
theorem formatHex_ordered_iff (L : Layout) :
    ((∀ p q : Nat, p < q → q < 2 ^ L.width →
        (formatHex L p).length = (formatHex L q).length) ↔ L.width % 4 = 0 ∨ L.width < 4) ∧
      ((∀ p q : Nat, p < q → q < 2 ^ L.width →
        (formatHex L p).toList < (formatHex L q).toList) ↔ L.width % 4 = 0 ∨ L.width < 4) := by
  refine ⟨⟨?_, ?_⟩, ⟨?_, ?_⟩⟩
  · intro hsame
    by_contra h
    obtain ⟨p, q, hpq, hq, hlonger, _⟩ := exists_misplaced h
    exact hlonger.ne (hsame p q hpq hq)
  · intro (h : IsEvenlyCut L) p q hpq hq
    exact (h.length_formatHex (hpq.trans hq)).trans (h.length_formatHex hq).symm
  · intro hordered
    by_contra h
    obtain ⟨p, q, hpq, hq, _, hfirst⟩ := exists_misplaced h
    exact List.lt_asymm hfirst (hordered p q hpq hq)
  · intro (h : IsEvenlyCut L) p q hpq hq
    exact h.formatHex_lt hpq hq

/-- Six bits, two of which are left over. -/
def e3m2 : Layout := { name := "e3m2", exponentBits := 3, mantissaBits := 2 }

/-- Not all texts of six bits are of one length, nor in order. -/
theorem formatHex_ordered_iff_e3m2 :
    ¬ (e3m2.width % 4 = 0 ∨ e3m2.width < 4) ∧
      (¬ ∀ p q : Nat, p < q → q < 2 ^ e3m2.width →
        (formatHex e3m2 p).length = (formatHex e3m2 q).length) ∧
        ¬ ∀ p q : Nat, p < q → q < 2 ^ e3m2.width →
          (formatHex e3m2 p).toList < (formatHex e3m2 q).toList := by
  obtain ⟨hlength, horder⟩ := formatHex_ordered_iff e3m2
  have hcut : ¬ (e3m2.width % 4 = 0 ∨ e3m2.width < 4) := by decide
  exact ⟨hcut, hlength.not.2 hcut, horder.not.2 hcut⟩

/-- The seventeenth pattern is the first with a second digit, and its text is sorted before that of
the third. -/
theorem formatHex_unordered :
    formatHex e3m2 2 = "0x2" ∧ formatHex e3m2 16 = "0x10" ∧ "0x10".toList < "0x2".toList ∧
      ¬ ∀ (L : Layout) (p q : Nat), p < q → q < 2 ^ L.width →
        (formatHex L p).length = (formatHex L q).length ∧
          (formatHex L p).toList < (formatHex L q).toList := by
  obtain ⟨hlow, hhigh⟩ :
      formatHex e3m2 (2 : Nat) = "0x2" ∧ formatHex e3m2 (16 : Nat) = "0x10" := by
    constructor
    all_goals
      apply String.toList_injective
      rw [toList_formatHex]
      simp [paddedNumeral, numeral, digits, digitsOnto, digitChar, e3m2, Layout.width,
        List.leftpad]
  refine ⟨hlow, hhigh, by decide, ?_⟩
  intro h
  obtain ⟨hlength, -⟩ := h e3m2 2 16 (by decide) (by decide)
  rw [hlow, hhigh] at hlength
  exact absurd hlength (by decide)

end HalfPrecision.Inspect
