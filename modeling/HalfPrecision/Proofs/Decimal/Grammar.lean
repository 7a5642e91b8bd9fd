import HalfPrecision.Decimal
import HalfPrecision.Proofs.Text.DigitRow
import HalfPrecision.Proofs.Text.Span
import Mathlib.Algebra.Order.Field.Power
import Mathlib.Algebra.Order.Field.Rat
import Mathlib.Tactic.FieldSimp
import Mathlib.Tactic.Positivity
import Mathlib.Tactic.Ring

/-!
# The grammar of decimal numbers

A decimal number has an optional sign, digits with an optional point, and an optional exponent. It is
read in two passes: the underscores are taken out first, and then the parts are split off one after
the other. Each part of the grammar passes through the first as a text without underscores, and is
found by the second in front of whatever follows it.
-/

namespace HalfPrecision.Decimal

open Text

/-- A sign, which may be left out, and whether it is a minus sign. -/
inductive SignText : List Char → Bool → Prop
  | absent : SignText [] false
  | plus : SignText ['+'] false
  | minus : SignText ['-'] true

/-- A minus sign, if there is one. -/
def minusIf (negative : Bool) : List Char := if negative then ['-'] else []

theorem signText_minusIf (negative : Bool) : SignText (minusIf negative) negative := by
  cases negative
  · exact .absent
  · exact .minus

/-- The values of digits before a point and after it. One of the two rows may be missing, and so may
the point if no digits follow it. -/
inductive SignificandText : List Char → List Nat → List Nat → Prop
  | whole {s : List Char} {ds : List Nat} :
      DigitRow digitValue? s ds → SignificandText s ds []
  | pointed {s : List Char} {ds : List Nat} :
      DigitRow digitValue? s ds → SignificandText (s ++ ['.']) ds []
  | fraction {s : List Char} {ds : List Nat} :
      DigitRow digitValue? s ds → SignificandText ('.' :: s) [] ds
  | both {s t : List Char} {ds ds' : List Nat} :
      DigitRow digitValue? s ds → DigitRow digitValue? t ds' →
      SignificandText (s ++ '.' :: t) ds ds'

/-- An exponent, which may be left out, and its value. -/
inductive ExponentText : List Char → Int → Prop
  | absent : ExponentText [] 0
  | given {c : Char} {s t : List Char} {negative : Bool} {ds : List Nat} :
      c = 'e' ∨ c = 'E' → SignText s negative → DigitRow digitValue? t ds →
      ExponentText (c :: (s ++ t)) (if negative then -(ofDigits 10 ds : Int) else ofDigits 10 ds)

/-- A decimal number, whether a minus sign is in front of it, and its exact value. -/
inductive NumberText : List Char → Bool → Rat → Prop
  | mk {s t u : List Char} {negative : Bool} {whole fraction : List Nat} {e : Int} :
      SignText s negative → SignificandText t whole fraction → ExponentText u e →
      NumberText (s ++ (t ++ u)) negative
        ((-1) ^ negative.toNat *
          ((ofDigits 10 whole + ofDigits 10 fraction / 10 ^ fraction.length) * 10 ^ e))

section Characters

variable {s : List Char} {whole fraction : List Nat} {negative : Bool} {e : Int} {q : Rat}

/-- Whether a decimal number may contain a character. -/
def IsNumberCharacter (c : Char) : Prop :=
  c ∈ ['_', '+', '-', '.', 'e', 'E'] ∨ ∃ d, digitValue? c = some d

theorem isNumberCharacter_of_digitRow {ds : List Nat} (h : DigitRow digitValue? s ds) :
    ∀ c ∈ s, IsNumberCharacter c := by
  intro c hc
  obtain rfl | hdigit := h.forall_mem_text c hc
  · exact .inl (by decide)
  · exact .inr hdigit

theorem SignText.isNumberCharacter (h : SignText s negative) : ∀ c ∈ s, IsNumberCharacter c := by
  intro c hc
  cases h with
  | absent => exact absurd hc List.not_mem_nil
  | plus =>
    obtain rfl := List.mem_singleton.1 hc
    exact .inl (by decide)
  | minus =>
    obtain rfl := List.mem_singleton.1 hc
    exact .inl (by decide)

theorem SignificandText.isNumberCharacter (h : SignificandText s whole fraction) :
    ∀ c ∈ s, IsNumberCharacter c := by
  have hpoint : IsNumberCharacter '.' := .inl (by decide)
  cases h with
  | whole hrow => exact isNumberCharacter_of_digitRow hrow
  | pointed hrow =>
    exact List.forall_mem_append.2
      ⟨isNumberCharacter_of_digitRow hrow, List.forall_mem_singleton.2 hpoint⟩
  | fraction hrow => exact List.forall_mem_cons.2 ⟨hpoint, isNumberCharacter_of_digitRow hrow⟩
  | both hwhole hrow =>
    exact List.forall_mem_append.2 ⟨isNumberCharacter_of_digitRow hwhole,
      List.forall_mem_cons.2 ⟨hpoint, isNumberCharacter_of_digitRow hrow⟩⟩

theorem ExponentText.isNumberCharacter (h : ExponentText s e) : ∀ c ∈ s, IsNumberCharacter c := by
  cases h with
  | absent => simp
  | given hc hsign hrow =>
    refine List.forall_mem_cons.2 ⟨?_, List.forall_mem_append.2
      ⟨hsign.isNumberCharacter, isNumberCharacter_of_digitRow hrow⟩⟩
    rcases hc with rfl | rfl <;> exact .inl (by decide)

theorem NumberText.isNumberCharacter (h : NumberText s negative q) :
    ∀ c ∈ s, IsNumberCharacter c := by
  obtain ⟨hsign, hsignificand, hexponent⟩ := h
  exact List.forall_mem_append.2 ⟨hsign.isNumberCharacter, List.forall_mem_append.2
    ⟨hsignificand.isNumberCharacter, hexponent.isNumberCharacter⟩⟩

end Characters

section Joining

variable {c : Char} {s t joined joined' : List Char} {before after last : Bool}

/-- Whether a text loses its underscores, whatever follows it. Before it and after it stands a digit
or something else. -/
def Joins (s joined : List Char) (before after : Bool) : Prop :=
  ∀ rest, joinGroups? before (s ++ rest) = (joinGroups? after rest).map (joined ++ ·)

namespace Joins

theorem nil : Joins [] [] before before := by
  intro rest
  exact Option.map_id_apply.symm

theorem append (h : Joins s joined before after) (h' : Joins t joined' after last) :
    Joins (s ++ t) (joined ++ joined') before last := by
  intro rest
  rw [List.append_assoc, h, h', Option.map_map]
  congr 1
  funext rest'
  exact (List.append_assoc _ _ _).symm

theorem character (hc : c ≠ '_') : Joins [c] [c] before c.isDigit := by
  intro rest
  rw [List.singleton_append, joinGroups?, if_neg hc]
  rfl

theorem underscore (hc : c.isDigit) (h : Joins (c :: s) joined false after) :
    Joins ('_' :: c :: s) joined true after := by
  intro rest
  rw [← h rest, List.cons_append, List.cons_append, joinGroups?]
  simp [hc]

theorem joinGroups?_eq (h : Joins s joined before after) :
    joinGroups? before s = some joined := by
  have hall := h []
  rwa [List.append_nil, joinGroups?, Option.map_some, List.append_nil] at hall

end Joins

end Joining

section Digits

variable {s : List Char} {ds : List Nat} {before : Bool}

/-- Digits in ASCII. -/
def asciiDigits (ds : List Nat) : List Char := ds.map asciiDigit

theorem joins_asciiDigit {d : Nat} (hd : d < 10) :
    Joins [asciiDigit d] [asciiDigit d] before true := by
  have hne : ∀ n < 10, asciiDigit n ≠ '_' := by decide
  exact isDigit_asciiDigit d hd ▸ Joins.character (hne d hd)

theorem joins_of_digitRow (h : DigitRow digitValue? s ds) :
    Joins (foldDigits s) (asciiDigits ds) before true := by
  induction h generalizing before with
  | one hc =>
    rw [foldDigits_cons_digit hc]
    exact joins_asciiDigit (digitValue?_lt hc)
  | next hc _ ih =>
    rw [foldDigits_cons_digit hc]
    exact (joins_asciiDigit (digitValue?_lt hc)).append ih
  | group hc hrow ih =>
    -- The underscore is let through because the rest of the row starts with a digit again.
    obtain ⟨c, d, rest, _, hd, rfl, rfl⟩ := hrow.exists_cons
    have hunderscore : digitValue? '_' = none := by decide
    rw [foldDigits_cons_digit hd] at ih
    rw [foldDigits_cons_digit hc, foldDigits_cons_other hunderscore, foldDigits_cons_digit hd]
    exact (joins_asciiDigit (digitValue?_lt hc)).append
      (ih.underscore (isDigit_asciiDigit d (digitValue?_lt hd)))

theorem lt_ten_of_digitRow (h : DigitRow digitValue? s ds) : ∀ d ∈ ds, d < 10 :=
  h.forall_mem fun _ _ => digitValue?_lt

variable (hds : ∀ d ∈ ds, d < 10)

include hds

theorem isDigit_of_mem_asciiDigits : ∀ c ∈ asciiDigits ds, c.isDigit := by
  intro c hc
  obtain ⟨d, hd, rfl⟩ := List.mem_map.1 hc
  exact isDigit_asciiDigit d (hds d hd)

theorem number_asciiDigits : number (asciiDigits ds) = ofDigits 10 ds := by
  rw [number, asciiDigits, List.map_map]
  congr 1
  conv_rhs => rw [← List.map_id ds]
  exact List.map_congr_left fun d hd => toNat_asciiDigit d (hds d hd)

/-- Digits are split off from what does not go on with one. -/
theorem span_asciiDigits {rest : List Char} (hrest : ∀ c ∈ rest.head?, c.isDigit = false) :
    (asciiDigits ds ++ rest).span Char.isDigit = (asciiDigits ds, rest) :=
  span_append (isDigit_of_mem_asciiDigits hds) hrest

end Digits

section Parts

variable {c : Char} {s t u : List Char} {ds whole fraction : List Nat} {negative before : Bool}
  {e : Int}

/-- Whether a character is no sign and starts no word. -/
def StartsNumber (c : Char) : Prop :=
  c ≠ '-' ∧ c ≠ '+' ∧ c.toLower ≠ 'i' ∧ c.toLower ≠ 'n'

instance (c : Char) : Decidable (StartsNumber c) := inferInstanceAs (Decidable (_ ∧ _))

theorem startsNumber_asciiDigit : ∀ d < 10, StartsNumber (asciiDigit d) := by decide

theorem startsNumber_point : StartsNumber '.' := by decide

theorem SignText.joins (h : SignText s negative) (before : Bool) :
    ∃ after, Joins (foldDigits s) s before after := by
  cases h with
  | absent => exact ⟨_, Joins.nil⟩
  | plus => exact ⟨_, Joins.character (by decide)⟩
  | minus => exact ⟨_, Joins.character (by decide)⟩

theorem SignText.splitSign_append (h : SignText s negative) (hc : StartsNumber c) :
    splitSign (s ++ c :: t) = (negative, c :: t) := by
  cases h with
  | absent =>
    rw [List.nil_append]
    unfold splitSign
    split
    · next h => exact absurd (List.cons.inj h).1 hc.1
    · next h => exact absurd (List.cons.inj h).1 hc.2.1
    · rfl
  | plus => rfl
  | minus => rfl

theorem word?_of_startsNumber (hc : StartsNumber c) : word? (c :: t) = none := by
  obtain ⟨-, -, hi, hn⟩ := hc
  simp [word?, hi, hn]

/-- The exponent in an ASCII text, which is nothing that a significand goes on with. -/
def IsExponent (s : List Char) (e : Int) : Prop :=
  exponent? s = some e ∧ ∀ c ∈ s.head?, c.isDigit = false ∧ c ≠ '.'

theorem isExponent_given (hc : c = 'e' ∨ c = 'E') (hsign : SignText s negative)
    (hds : ∀ d ∈ ds, d < 10) (hne : ds ≠ []) :
    IsExponent (c :: (s ++ asciiDigits ds))
      (if negative then -(ofDigits 10 ds : Int) else ofDigits 10 ds) := by
  obtain ⟨d, rest, rfl⟩ := List.exists_cons_of_ne_nil hne
  have hsplit : splitSign (s ++ asciiDigits (d :: rest)) = (negative, asciiDigits (d :: rest)) :=
    hsign.splitSign_append (startsNumber_asciiDigit d (hds d List.mem_cons_self))
  have hdigits : (asciiDigits (d :: rest)).all Char.isDigit :=
    List.all_eq_true.2 (isDigit_of_mem_asciiDigits hds)
  have hsome : (asciiDigits (d :: rest)).isEmpty = false := rfl
  refine ⟨?_, ?_⟩
  · rw [exponent?, hsplit]
    simp [hc, hdigits, hsome, number_asciiDigits hds]
  · rcases hc with rfl | rfl <;> simp

theorem ExponentText.joins (h : ExponentText u e) :
    ∃ joined after, Joins (foldDigits u) joined before after ∧ IsExponent joined e := by
  cases h with
  | absent => exact ⟨_, _, Joins.nil, rfl, by simp⟩
  | @given c s t negative ds hc hsign hrow =>
    obtain ⟨_, hjoins⟩ := hsign.joins c.isDigit
    have hother : digitValue? c = none ∧ c ≠ '_' := by rcases hc with rfl | rfl <;> decide
    refine ⟨c :: (s ++ asciiDigits ds), true, ?_,
      isExponent_given hc hsign (lt_ten_of_digitRow hrow) hrow.ne_nil⟩
    rw [foldDigits_cons_other hother.1, foldDigits_append]
    exact (Joins.character hother.2).append (hjoins.append (joins_of_digitRow hrow))

/-- The digits after a point, and the point; without digits the point may be missing. -/
def IsFraction (s : List Char) (ds : List Nat) : Prop :=
  s = [] ∧ ds = [] ∨ s = '.' :: asciiDigits ds

theorem SignificandText.joins (h : SignificandText t whole fraction) :
    ∃ joined after, Joins (foldDigits t) (asciiDigits whole ++ joined) before after ∧
      IsFraction joined fraction ∧ (∀ d ∈ whole, d < 10) ∧ (∀ d ∈ fraction, d < 10) ∧
      (whole ≠ [] ∨ fraction ≠ []) := by
  have hpoint : digitValue? '.' = none := by decide
  have hjoins {before : Bool} : Joins ['.'] ['.'] before false := Joins.character (by decide)
  cases h with
  | whole hrow =>
    refine ⟨[], true, ?_, .inl ⟨rfl, rfl⟩, lt_ten_of_digitRow hrow, by simp,
      .inl hrow.ne_nil⟩
    rw [List.append_nil]
    exact joins_of_digitRow hrow
  | pointed hrow =>
    refine ⟨['.'], false, ?_, .inr rfl, lt_ten_of_digitRow hrow, by simp,
      .inl hrow.ne_nil⟩
    rw [foldDigits_append, foldDigits_cons_other hpoint]
    exact (joins_of_digitRow hrow).append hjoins
  | fraction hrow =>
    refine ⟨'.' :: asciiDigits fraction, true, ?_, .inr rfl, by simp, lt_ten_of_digitRow hrow,
      .inr hrow.ne_nil⟩
    rw [foldDigits_cons_other hpoint]
    exact hjoins.append (joins_of_digitRow hrow)
  | both hwhole hrow =>
    refine ⟨'.' :: asciiDigits fraction, true, ?_, .inr rfl, lt_ten_of_digitRow hwhole,
      lt_ten_of_digitRow hrow, .inl hwhole.ne_nil⟩
    rw [foldDigits_append, foldDigits_cons_other hpoint]
    exact (joins_of_digitRow hwhole).append (hjoins.append (joins_of_digitRow hrow))

end Parts

section Numbers

variable {s joined rest : List Char} {whole fraction : List Nat} {negative : Bool} {e : Int} {q : Rat}

theorem splitFraction_append (hjoined : IsFraction joined fraction)
    (hfraction : ∀ d ∈ fraction, d < 10) (hrest : IsExponent rest e) :
    splitFraction (joined ++ rest) = (asciiDigits fraction, rest) := by
  obtain ⟨rfl, rfl⟩ | rfl := hjoined
  · unfold splitFraction
    split
    next h =>
      rw [List.nil_append] at h
      exact absurd rfl (hrest.2 '.' (h ▸ rfl)).2
    next => rfl
  · exact span_asciiDigits hfraction fun c hc => (hrest.2 c hc).1

/-- A number without its sign is read part by part. -/
theorem finite?_append (hwhole : ∀ d ∈ whole, d < 10) (hfraction : ∀ d ∈ fraction, d < 10)
    (hne : whole ≠ [] ∨ fraction ≠ []) (hjoined : IsFraction joined fraction)
    (hrest : IsExponent rest e) :
    finite? (asciiDigits whole ++ (joined ++ rest)) =
      some (.finite (ofDigits 10 (whole ++ fraction)) (e - fraction.length)) := by
  have hhead : ∀ c ∈ (joined ++ rest).head?, c.isDigit = false := by
    obtain ⟨rfl, rfl⟩ | rfl := hjoined
    · exact fun c hc => (hrest.2 c hc).1
    · intro c hc
      obtain rfl : '.' = c := Option.some.inj hc
      rfl
  have hsome : ((asciiDigits whole).isEmpty && (asciiDigits fraction).isEmpty) = false := by
    simpa [asciiDigits, imp_iff_not_or] using hne
  have hdigits : asciiDigits whole ++ asciiDigits fraction = asciiDigits (whole ++ fraction) :=
    List.map_append.symm
  have hlength : (asciiDigits fraction).length = fraction.length := List.length_map _
  rw [finite?, span_asciiDigits hwhole hhead]
  simp only [splitFraction_append hjoined hfraction hrest, hsome, Bool.false_eq_true, if_false,
    hrest.1, Option.map_some, hdigits, hlength]
  rw [number_asciiDigits (List.forall_mem_append.2 ⟨hwhole, hfraction⟩)]

theorem exists_cons_of_significand (hwhole : ∀ d ∈ whole, d < 10)
    (hne : whole ≠ [] ∨ fraction ≠ []) (hjoined : IsFraction joined fraction) :
    ∃ c tail, asciiDigits whole ++ joined = c :: tail ∧ StartsNumber c := by
  cases whole with
  | nil =>
    have hpoint : joined = '.' :: asciiDigits fraction :=
      hjoined.resolve_left fun h => hne.elim (absurd rfl) (absurd h.2)
    exact ⟨'.', _, hpoint, startsNumber_point⟩
  | cons d whole =>
    exact ⟨asciiDigit d, _, rfl, startsNumber_asciiDigit d (hwhole d List.mem_cons_self)⟩

/-- A decimal number is read as the numeral of its exact value. -/
theorem NumberText.exists_ofChars?_eq (h : NumberText s negative q) :
    ∃ digits exponent, Numeral.ofChars? s = some ⟨negative, .finite digits exponent⟩ ∧
      |q| = digits * 10 ^ exponent := by
  obtain @⟨s, t, u, negative, whole, fraction, e, hsign, hsignificand, hexponent⟩ := h
  obtain ⟨_, hjoins⟩ := hsign.joins false
  obtain ⟨joined, _, hjoins', hjoined, hwhole, hfraction, hne⟩ := hsignificand.joins
  obtain ⟨rest, _, hjoins'', hrest⟩ := hexponent.joins
  have hjoin : joinGroups? false (foldDigits (s ++ (t ++ u))) =
      some (s ++ ((asciiDigits whole ++ joined) ++ rest)) := by
    rw [foldDigits_append, foldDigits_append]
    exact (hjoins.append (hjoins'.append hjoins'')).joinGroups?_eq
  -- What follows the sign starts with a digit or with the point, so it is not taken for a word.
  obtain ⟨c, tail, hcons, hc⟩ := exists_cons_of_significand hwhole hne hjoined
  have hfinite := finite?_append hwhole hfraction hne hjoined hrest
  rw [← List.append_assoc, hcons, List.cons_append] at hfinite
  refine ⟨ofDigits 10 (whole ++ fraction), e - fraction.length, ?_, ?_⟩
  · rw [Numeral.ofChars?, hjoin, hcons, List.cons_append]
    simp only [Option.bind_eq_bind, Option.bind_some, hsign.splitSign_append hc,
      word?_of_startsNumber hc, hfinite]
    rfl
  · rw [abs_mul, abs_neg_one_pow, one_mul, abs_of_nonneg (by positivity), ofDigits_append,
      zpow_sub₀ (by norm_num), zpow_natCast]
    push_cast
    field_simp

end Numbers

end HalfPrecision.Decimal
