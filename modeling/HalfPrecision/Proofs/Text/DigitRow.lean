import HalfPrecision.Text
import Mathlib.Data.Nat.Log
import Mathlib.Tactic.Ring

/-!
# Rows of digits

A number is written as a row of digits, with single underscores between them wherever they are
wanted. Digits of other scripts stand for the same values as those of ASCII, in which they are
written before a number is read. A number that is written in digits is such a row.
-/

namespace HalfPrecision.Text

/-- A row of digits with their values. Single underscores may stand between two of them. -/
inductive DigitRow (value? : Char → Option Nat) : List Char → List Nat → Prop
  | one {c : Char} {d : Nat} : value? c = some d → DigitRow value? [c] [d]
  | next {c : Char} {d : Nat} {s : List Char} {ds : List Nat} :
      value? c = some d → DigitRow value? s ds → DigitRow value? (c :: s) (d :: ds)
  | group {c : Char} {d : Nat} {s : List Char} {ds : List Nat} :
      value? c = some d → DigitRow value? s ds → DigitRow value? (c :: '_' :: s) (d :: ds)

/-- The value of a hexadecimal digit: a decimal digit of any script, or a letter in either case. -/
def hexValue? (c : Char) : Option Nat := (digitValue? c).or (hexDigitValue? c)

namespace DigitRow

variable {value? : Char → Option Nat} {s : List Char} {ds : List Nat}

/-- Digits that are written without underscores. -/
theorem of_map {f : Nat → Char} (hne : ds ≠ []) (hf : ∀ d ∈ ds, value? (f d) = some d) :
    DigitRow value? (ds.map f) ds := by
  induction ds with
  | nil => exact absurd rfl hne
  | cons d ds ih =>
    obtain ⟨hd, hds⟩ := List.forall_mem_cons.1 hf
    rcases ds with _ | ⟨d', ds⟩
    · exact .one hd
    · exact .next hd (ih (List.cons_ne_nil _ _) hds)

theorem exists_cons (h : DigitRow value? s ds) :
    ∃ c d rest rest', value? c = some d ∧ s = c :: rest ∧ ds = d :: rest' := by
  cases h with
  | one hc => exact ⟨_, _, _, _, hc, rfl, rfl⟩
  | next hc _ => exact ⟨_, _, _, _, hc, rfl, rfl⟩
  | group hc _ => exact ⟨_, _, _, _, hc, rfl, rfl⟩

theorem ne_nil (h : DigitRow value? s ds) : ds ≠ [] := by
  cases h <;> exact List.cons_ne_nil _ _

theorem exists_getLast? (h : DigitRow value? s ds) :
    ∃ c d, value? c = some d ∧ s.getLast? = some c := by
  induction h with
  | one hc => exact ⟨_, _, hc, rfl⟩
  | next _ _ ih =>
    obtain ⟨c, d, hc, hlast⟩ := ih
    exact ⟨c, d, hc, by rw [List.getLast?_cons, hlast, Option.getD_some]⟩
  | group _ _ ih =>
    obtain ⟨c, d, hc, hlast⟩ := ih
    refine ⟨c, d, hc, ?_⟩
    rw [List.getLast?_cons, List.getLast?_cons, hlast, Option.getD_some, Option.getD_some]

/-- There is nothing in a row but digits and underscores. -/
theorem forall_mem_text (h : DigitRow value? s ds) : ∀ c ∈ s, c = '_' ∨ ∃ d, value? c = some d := by
  induction h with
  | one hc => simpa using .inr ⟨_, hc⟩
  | next hc _ ih => exact List.forall_mem_cons.2 ⟨.inr ⟨_, hc⟩, ih⟩
  | group hc _ ih =>
    exact List.forall_mem_cons.2 ⟨.inr ⟨_, hc⟩, List.forall_mem_cons.2 ⟨.inl rfl, ih⟩⟩

/-- What holds of the values of all digits holds of those in a row. -/
theorem forall_mem {P : Nat → Prop} (h : DigitRow value? s ds)
    (hvalue : ∀ c d, value? c = some d → P d) : ∀ d ∈ ds, P d := by
  induction h with
  | one hc => simpa using hvalue _ _ hc
  | next hc _ ih => exact List.forall_mem_cons.2 ⟨hvalue _ _ hc, ih⟩
  | group hc _ ih => exact List.forall_mem_cons.2 ⟨hvalue _ _ hc, ih⟩

end DigitRow

theorem exists_digitZero {c : Char} {d : Nat} (h : digitValue? c = some d) :
    ∃ first ∈ digitZeros, d < 10 ∧ c.toNat = first + d := by
  obtain ⟨first, hfind, rfl⟩ := Option.map_eq_some_iff.1 h
  obtain ⟨hrange, _⟩ := List.find?_eq_some_iff_append.1 hfind
  simp only [Bool.and_eq_true, decide_eq_true_eq] at hrange
  exact ⟨first, List.mem_of_find?_eq_some hfind, by omega, by omega⟩

theorem digitValue?_lt {c : Char} {d : Nat} (h : digitValue? c = some d) : d < 10 := by
  obtain ⟨_, _, hlt, _⟩ := exists_digitZero h
  exact hlt

section Ascii

variable {c : Char} {d : Nat}

theorem hexDigitValue?_asciiDigit : ∀ d < 10, hexDigitValue? (asciiDigit d) = some d := by decide

theorem digitValue?_asciiDigit : ∀ d < 10, digitValue? (asciiDigit d) = some d := by decide

theorem isDigit_asciiDigit : ∀ d < 10, (asciiDigit d).isDigit := by decide

theorem toNat_asciiDigit : ∀ d < 10, (asciiDigit d).toNat - 48 = d := by decide

theorem foldDigits_append (s t : List Char) : foldDigits (s ++ t) = foldDigits s ++ foldDigits t :=
  List.map_append

theorem foldDigits_cons_digit (h : digitValue? c = some d) (s : List Char) :
    foldDigits (c :: s) = asciiDigit d :: foldDigits s := by
  rw [foldDigits, List.map_cons, h]
  rfl

theorem foldDigits_cons_other (h : digitValue? c = none) (s : List Char) :
    foldDigits (c :: s) = c :: foldDigits s := by
  rw [foldDigits, List.map_cons, h]
  rfl

/-- Hexadecimal digits that are written in ASCII keep their values. -/
theorem foldDigits_cons_hex (h : hexValue? c = some d) (s : List Char) :
    ∃ ascii, hexDigitValue? ascii = some d ∧ foldDigits (c :: s) = ascii :: foldDigits s := by
  cases hvalue : digitValue? c with
  | none =>
    rw [hexValue?, hvalue, Option.none_or] at h
    exact ⟨c, h, foldDigits_cons_other hvalue s⟩
  | some n =>
    rw [hexValue?, hvalue, Option.some_or] at h
    obtain rfl : n = d := Option.some.inj h
    exact ⟨_, hexDigitValue?_asciiDigit n (digitValue?_lt hvalue), foldDigits_cons_digit hvalue s⟩

end Ascii

theorem digitValue?_digitChar : ∀ d < 10, digitValue? (digitChar d) = some d := by decide

theorem hexValue?_digitChar : ∀ d < 16, hexValue? (digitChar d) = some d := by decide

/-- No digit is a blank. -/
theorem isBlank_of_hexValue? {c : Char} {d : Nat} (h : hexValue? c = some d) :
    isBlank c = false := by
  cases hvalue : digitValue? c with
  | none =>
    rw [hexValue?, hvalue, Option.none_or, hexDigitValue?] at h
    have hrange : 48 ≤ c.toNat ∧ c.toNat ≤ 102 := by
      simp only [Bool.and_eq_true, decide_eq_true_eq] at h
      split at h
      · omega
      split at h
      · omega
      split at h
      · omega
      · cases h
    simp [isBlank, isWhiteSpace]
    omega
  | some n =>
    obtain ⟨first, hmem, hlt, hcode⟩ := exists_digitZero hvalue
    -- There are few blocks of digits, so each of their characters is looked at.
    have hblocks : ∀ first ∈ digitZeros, ∀ n < 10, isBlank (Char.ofNat (first + n)) = false := by
      decide +kernel
    rw [← Char.ofNat_toNat c, hcode]
    exact hblocks first hmem n hlt

section Numbers

variable {base : Nat}

theorem foldl_eq_ofDigits (n : Nat) (ds : List Nat) :
    ds.foldl (fun n d => n * base + d) n = n * base ^ ds.length + ofDigits base ds := by
  induction ds generalizing n with
  | nil => simp [ofDigits]
  | cons d ds ih =>
    rw [ofDigits, List.foldl_cons, List.foldl_cons, ih, ih (0 * base + d), List.length_cons]
    ring

/-- Digits in front of others count as many times as the others have places. -/
theorem ofDigits_append (ds ds' : List Nat) :
    ofDigits base (ds ++ ds') = ofDigits base ds * base ^ ds'.length + ofDigits base ds' := by
  rw [ofDigits, List.foldl_append, foldl_eq_ofDigits]
  rfl

theorem ofDigits_cons (d : Nat) (ds : List Nat) :
    ofDigits base (d :: ds) = d * base ^ ds.length + ofDigits base ds := by
  rw [ofDigits, List.foldl_cons, foldl_eq_ofDigits, Nat.zero_mul, Nat.zero_add]

theorem pow_length_le_ofDigits {d : Nat} (hd : d ≠ 0) (ds : List Nat) :
    base ^ ds.length ≤ ofDigits base (d :: ds) := by
  rw [ofDigits_cons]
  exact (Nat.le_mul_of_pos_left _ (Nat.pos_of_ne_zero hd)).trans (Nat.le_add_right _ _)

theorem ofDigits_lt_pow {ds : List Nat} (h : ∀ d ∈ ds, d < base) :
    ofDigits base ds < base ^ ds.length := by
  induction ds with
  | nil => exact Nat.one_pos
  | cons d ds ih =>
    obtain ⟨hd, hds⟩ := List.forall_mem_cons.1 h
    calc ofDigits base (d :: ds) = d * base ^ ds.length + ofDigits base ds := ofDigits_cons d ds
      _ < d * base ^ ds.length + base ^ ds.length := Nat.add_lt_add_left (ih hds) _
      _ = (d + 1) * base ^ ds.length := (Nat.succ_mul _ _).symm
      _ ≤ base * base ^ ds.length := Nat.mul_le_mul_right _ hd
      _ = base ^ (d :: ds).length := by rw [List.length_cons, Nat.pow_succ, Nat.mul_comm]

theorem forall_mem_digitsOnto (hbase : 1 < base) {n : Nat} {rest : List Nat}
    (hrest : ∀ d ∈ rest, d < base) : ∀ d ∈ digitsOnto base n rest, d < base := by
  fun_induction digitsOnto base n rest with
  | case1 n rest _ _ ih =>
    exact ih (List.forall_mem_cons.2 ⟨Nat.mod_lt n (Nat.zero_lt_of_lt hbase), hrest⟩)
  | case2 n rest h => exact List.forall_mem_cons.2 ⟨by omega, hrest⟩

theorem digitsOnto_ne_nil (n : Nat) (rest : List Nat) : digitsOnto base n rest ≠ [] := by
  fun_induction digitsOnto base n rest with
  | case1 _ _ _ _ ih => exact ih
  | case2 n rest _ => exact List.cons_ne_nil n rest

theorem ofDigits_replicate_zero (k : Nat) (ds : List Nat) :
    ofDigits base (List.replicate k 0 ++ ds) = ofDigits base ds := by
  induction k with
  | zero => rfl
  | succ k ih =>
    rw [List.replicate_succ, List.cons_append, ofDigits, List.foldl_cons, Nat.zero_mul]
    exact ih

/-- A number has as many digits as the powers of the base that it lies between tell. -/
theorem length_digitsOnto {k n : Nat} (hbase : 1 < base) (hlow : base ^ k ≤ n)
    (hhigh : n < base ^ (k + 1)) (rest : List Nat) :
    (digitsOnto base n rest).length = k + 1 + rest.length := by
  fun_induction digitsOnto base n rest generalizing k with
  | case1 n rest h _ ih =>
    obtain ⟨j, rfl⟩ : ∃ j, k = j + 1 := by
      refine Nat.exists_eq_succ_of_ne_zero ?_
      rintro rfl
      rw [Nat.zero_add, Nat.pow_one] at hhigh
      omega
    have hlow' : base ^ j ≤ n / base := by
      rwa [Nat.le_div_iff_mul_le (Nat.zero_lt_of_lt hbase), ← Nat.pow_succ]
    have hhigh' : n / base < base ^ (j + 1) := by
      rwa [Nat.div_lt_iff_lt_mul (Nat.zero_lt_of_lt hbase), ← Nat.pow_succ]
    rw [ih hlow' hhigh', List.length_cons]
    omega
  | case2 n rest h =>
    obtain rfl : k = 0 := by
      by_contra hne
      have := Nat.pow_le_pow_right (Nat.zero_lt_of_lt hbase) (Nat.pos_of_ne_zero hne)
      rw [Nat.pow_one] at this
      omega
    rw [List.length_cons]
    omega

/-- A positive number of digits suffices for the numbers below that power of the base. -/
theorem length_digits_le_iff {k : Nat} (hbase : 1 < base) (hk : 0 < k) (n : Nat) :
    (digits base n).length ≤ k ↔ n < base ^ k := by
  constructor
  · intro h
    have hlt : ofDigits base (digits base n) < base ^ (digits base n).length :=
      ofDigits_lt_pow (forall_mem_digitsOnto hbase (by simp))
    rw [ofDigits_digits] at hlt
    exact hlt.trans_le (Nat.pow_le_pow_right (Nat.zero_lt_of_lt hbase) h)
  · intro h
    rcases Nat.eq_zero_or_pos n with rfl | hn
    · rw [digits, digitsOnto, dif_neg (by omega)]
      exact hk
    · have hlow := Nat.pow_log_le_self base hn.ne'
      have hlog : Nat.log base n < k := (Nat.pow_lt_pow_iff_right hbase).1 (hlow.trans_lt h)
      rw [digits, length_digitsOnto hbase hlow (Nat.lt_pow_succ_log_self hbase n)]
      exact hlog

variable (base) in
/-- The digits of a number, at least `size` of them. -/
def paddedDigits (size n : Nat) : List Nat := (digits base n).leftpad size 0

theorem paddedNumeral_eq_map (size n : Nat) :
    paddedNumeral base size n = (paddedDigits base size n).map digitChar := by
  rw [paddedNumeral, paddedDigits, List.leftpad, List.leftpad, List.map_append,
    List.map_replicate, numeral, List.length_map]
  rfl

theorem length_paddedDigits (size n : Nat) :
    (paddedDigits base size n).length = max size (digits base n).length :=
  List.length_leftpad

theorem ofDigits_paddedDigits (size n : Nat) : ofDigits base (paddedDigits base size n) = n := by
  rw [paddedDigits, List.leftpad, ofDigits_replicate_zero, ofDigits_digits]

theorem lt_of_mem_paddedDigits (hbase : 1 < base) (size n : Nat) :
    ∀ d ∈ paddedDigits base size n, d < base := by
  intro d hd
  rcases List.mem_append.1 hd with hzero | hdigit
  · rw [List.eq_of_mem_replicate hzero]
    exact Nat.zero_lt_of_lt hbase
  · exact forall_mem_digitsOnto hbase (by simp) d hdigit

/-- A number that is filled up with zeros is a row of digits that stands for it. -/
theorem exists_digitRow_paddedNumeral {value? : Char → Option Nat} (hbase : 1 < base)
    (hchar : ∀ d < base, value? (digitChar d) = some d) (size n : Nat) :
    ∃ ds, DigitRow value? (paddedNumeral base size n) ds ∧ ofDigits base ds = n := by
  refine ⟨paddedDigits base size n, ?_, ofDigits_paddedDigits size n⟩
  rw [paddedNumeral_eq_map]
  apply DigitRow.of_map
  · exact List.append_ne_nil_of_right_ne_nil _ (digitsOnto_ne_nil n [])
  · exact fun d hd => hchar d (lt_of_mem_paddedDigits hbase size n d hd)

end Numbers

end HalfPrecision.Text
