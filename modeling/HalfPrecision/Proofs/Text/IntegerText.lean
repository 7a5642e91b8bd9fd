import HalfPrecision.Text.Integer
import HalfPrecision.Proofs.Decimal.Grammar
import Mathlib.Data.List.TakeWhile

/-!
# The grammar of integers

An integer in a text has white space around it, an optional sign, and digits with single underscores
between them; a fraction of zeros may follow. Behind zeros in front, underscores may stand in any
number, and a minus sign if there was none. Tidying such a text up leaves its minus sign and its
digits without the zeros in front, which are a plain integer.
-/

namespace HalfPrecision.Text.Integer

open Decimal (SignText asciiDigits minusIf signText_minusIf)

/-- The value of an ASCII digit. -/
def asciiValue? (c : Char) : Option Nat := if c.isDigit then some (c.toNat - 48) else none

/-- Digits of which the first is a zero only if it is the only one. -/
def IsPlainRow (ds : List Nat) : Prop := ds.head? = some 0 → ds.length = 1

/-- A plain integer, and its value. -/
inductive PlainText : List Char → Int → Prop
  | mk {ds : List Nat} (negative : Bool) :
      (∀ d ∈ ds, d < 10) → ds ≠ [] → IsPlainRow ds →
      PlainText (minusIf negative ++ asciiDigits ds)
        (if negative then -(ofDigits 10 ds : Int) else ofDigits 10 ds)

/-- A fraction of zeros, which may be left out with its point. -/
inductive ZeroFraction : List Char → Prop
  | absent : ZeroFraction []
  | given (zeros : Nat) : ZeroFraction ('.' :: '0' :: List.replicate zeros '0')

/-- An integer in a text, and its value. -/
inductive IntegerText : List Char → Int → Prop
  | mk {before s t u after : List Char} {negative : Bool} {ds : List Nat} :
      (∀ c ∈ before, isWhiteSpace c) → SignText s negative → DigitRow asciiValue? t ds →
      ZeroFraction u → (∀ c ∈ after, isWhiteSpace c) →
      IntegerText (before ++ (s ++ (t ++ u)) ++ after)
        (if negative then -(ofDigits 10 ds : Int) else ofDigits 10 ds)

/-- Zeros in front of an integer. Underscores may stand anywhere behind the first of them. -/
inductive ZerosText : List Char → Prop
  | mk {s : List Char} : (∀ c ∈ s, c = '0' ∨ c = '_') → ZerosText ('0' :: s)

/-- The digits of an integer with what may stand in front of them, and whether that is a minus sign.
An underscore may follow this, but not a zero in front of other digits. -/
inductive WholeText : List Char → Bool → List Nat → Prop
  | row {t : List Char} {ds : List Nat} : DigitRow asciiValue? t ds → WholeText t false ds
  | zeros {z t : List Char} {ds : List Nat} :
      ZerosText z → DigitRow asciiValue? t ds → WholeText (z ++ t) false ds
  | minus {z m t : List Char} {ds : List Nat} :
      ZerosText z → m = [] ∨ m = ['_'] → DigitRow asciiValue? t ds → IsPlainRow ds →
      WholeText (z ++ '-' :: (m ++ t)) true ds

/-- An integer in a text as far as it is understood, and its value. -/
inductive LenientText : List Char → Int → Prop
  | mk {before s w u after : List Char} {negative inner : Bool} {ds : List Nat} :
      (∀ c ∈ before, isWhiteSpace c) → SignText s negative → WholeText w inner ds →
      (negative && inner) = false → ZeroFraction u → (∀ c ∈ after, isWhiteSpace c) →
      LenientText (before ++ (s ++ (w ++ u)) ++ after)
        (if negative || inner then -(ofDigits 10 ds : Int) else ofDigits 10 ds)

section Digits

variable {c : Char} {d : Nat} {s t u : List Char} {ds : List Nat}

theorem isDigit_of_asciiValue? (h : asciiValue? c = some d) : c.isDigit = true := by
  unfold asciiValue? at h
  split at h
  next hdigit => exact hdigit
  next => cases h

theorem eq_asciiDigit (h : asciiValue? c = some d) : d < 10 ∧ c = asciiDigit d := by
  have hdigit := isDigit_of_asciiValue? h
  rw [asciiValue?, if_pos hdigit] at h
  obtain rfl := Option.some.inj h
  have hrange : 48 ≤ c.toNat ∧ c.toNat ≤ 57 := by
    simpa [Char.isDigit, UInt32.le_iff_toNat_le] using hdigit
  refine ⟨by omega, ?_⟩
  rw [asciiDigit, Nat.add_sub_cancel' hrange.1, Char.ofNat_toNat]

theorem asciiValue?_asciiDigit : ∀ d < 10, asciiValue? (asciiDigit d) = some d := by decide

theorem isWhiteSpace_asciiDigit : ∀ d < 10, isWhiteSpace (asciiDigit d) = false := by decide

theorem lt_ten_of_digitRow (h : DigitRow asciiValue? s ds) : ∀ d ∈ ds, d < 10 :=
  h.forall_mem fun _ _ hc => (eq_asciiDigit hc).1

theorem length_le_countP (h : DigitRow asciiValue? s ds) : ds.length ≤ s.countP Char.isDigit := by
  induction h with
  | one hc =>
    rw [List.countP_cons_of_pos (isDigit_of_asciiValue? hc), List.length_singleton]
    omega
  | next hc _ ih =>
    rw [List.countP_cons_of_pos (isDigit_of_asciiValue? hc), List.length_cons]
    omega
  | group hc _ ih =>
    rw [List.countP_cons_of_pos (isDigit_of_asciiValue? hc), List.countP_cons, List.length_cons]
    omega

/-- Single underscores between digits are dropped. -/
theorem dropUnderscores?_of_digitRow (h : DigitRow asciiValue? s ds) (afterOther : Bool) :
    dropUnderscores? afterOther s = some (asciiDigits ds) := by
  have hne : ∀ d < 10, asciiDigit d ≠ '_' := by decide
  induction h generalizing afterOther with
  | one hc =>
    obtain ⟨hd, rfl⟩ := eq_asciiDigit hc
    rw [dropUnderscores?, if_neg (hne _ hd)]
    rfl
  | next hc _ ih =>
    obtain ⟨hd, rfl⟩ := eq_asciiDigit hc
    rw [dropUnderscores?, if_neg (hne _ hd), ih]
    rfl
  | group hc _ ih =>
    obtain ⟨hd, rfl⟩ := eq_asciiDigit hc
    rw [dropUnderscores?, if_neg (hne _ hd), dropUnderscores?, if_pos rfl, if_pos rfl, ih]
    rfl

/-- What is left of digits when the zeros in front are dropped. -/
structure IsTrimmed (ds ds' : List Nat) : Prop where
  ofDigits_eq : ofDigits 10 ds' = ofDigits 10 ds
  plain : IsPlainRow ds'

theorem IsTrimmed.cons_zero {ds' : List Nat} (h : IsTrimmed ds ds') : IsTrimmed (0 :: ds) ds' :=
  ⟨h.ofDigits_eq, h.plain⟩

theorem isTrimmed_of_head_ne_zero (hd : d ≠ 0) : IsTrimmed (d :: ds) (d :: ds) :=
  ⟨rfl, fun h => absurd (Option.some.inj h) hd⟩

theorem isTrimmed_singleton (d : Nat) : IsTrimmed [d] [d] := ⟨rfl, fun _ => rfl⟩

theorem afterZeros?_zero (last : Char) (s : List Char) :
    afterZeros? last ('0' :: s) = afterZeros? '0' s := by
  rw [afterZeros?, if_pos (by decide)]

theorem afterZeros?_underscore (last : Char) (s : List Char) :
    afterZeros? last ('_' :: s) = afterZeros? '_' s := by
  rw [afterZeros?, if_pos (by decide)]

theorem afterZeros?_digit (hc : asciiValue? c = some d) (hd : d ≠ 0) (last : Char) (s : List Char) :
    afterZeros? last (c :: s) = some (c :: s) := by
  have hother : ∀ d < 10, d ≠ 0 → (asciiDigit d = '0' || asciiDigit d = '_') = false := by decide
  have hdigit := isDigit_of_asciiValue? hc
  obtain ⟨hlt, rfl⟩ := eq_asciiDigit hc
  rw [afterZeros?]
  simp [hother d hlt hd, hdigit]

/-- A last zero is kept. -/
theorem afterZeros?_zeroFraction (hu : ZeroFraction u) : afterZeros? '0' u = some ('0' :: u) := by
  cases hu <;> rfl

/-- The zeros in front are passed over, up to the last digit. -/
theorem exists_afterZeros?_eq (h : DigitRow asciiValue? s ds) (hu : ZeroFraction u) (last : Char) :
    ∃ s' ds', afterZeros? last (s ++ u) = some (s' ++ u) ∧ DigitRow asciiValue? s' ds' ∧
      IsTrimmed ds ds' := by
  have hzero {c : Char} (hc : asciiValue? c = some 0) : c = '0' := (eq_asciiDigit hc).2
  induction h generalizing last with
  | @one c d hc =>
    refine ⟨[c], [d], ?_, .one hc, isTrimmed_singleton d⟩
    by_cases hd : d = 0
    · subst hd
      rw [hzero hc, List.singleton_append, afterZeros?_zero, afterZeros?_zeroFraction hu]
    · exact afterZeros?_digit hc hd last u
  | @next c d s ds hc hrow ih =>
    by_cases hd : d = 0
    · subst hd
      obtain ⟨s', ds', hdrop, hrow', htrimmed⟩ := ih '0'
      refine ⟨s', ds', ?_, hrow', htrimmed.cons_zero⟩
      rw [hzero hc, List.cons_append, afterZeros?_zero, hdrop]
    · exact ⟨c :: s, d :: ds, afterZeros?_digit hc hd last (s ++ u), .next hc hrow,
        isTrimmed_of_head_ne_zero hd⟩
  | @group c d s ds hc hrow ih =>
    by_cases hd : d = 0
    · subst hd
      obtain ⟨s', ds', hdrop, hrow', htrimmed⟩ := ih '_'
      refine ⟨s', ds', ?_, hrow', htrimmed.cons_zero⟩
      rw [hzero hc, List.cons_append, List.cons_append, afterZeros?_zero, afterZeros?_underscore,
        hdrop]
    · exact ⟨c :: '_' :: s, d :: ds, afterZeros?_digit hc hd last ('_' :: s ++ u), .group hc hrow,
        isTrimmed_of_head_ne_zero hd⟩

theorem dropZeros?_eq (hc : c.isDigit = true) (s : List Char) :
    dropZeros? (c :: s) = afterZeros? '0' (c :: s) := by
  rw [dropZeros?, afterZeros?]
  by_cases hzero : c = '0'
  · simp [hzero]
  · have hunderscore : c ≠ '_' := by
      rintro rfl
      exact absurd hc (by decide)
    simp [hzero, hunderscore, hc]

theorem point_not_mem_of_digitRow (h : DigitRow asciiValue? s ds) : '.' ∉ s := by
  intro hc
  obtain hmark | ⟨d, hd⟩ := h.forall_mem_text '.' hc
  · exact absurd hmark (by decide)
  · exact absurd hd (by simp [asciiValue?])

theorem dropFraction_append (hs : '.' ∉ s) (hu : ZeroFraction u) : dropFraction (s ++ u) = s := by
  have hpoint : ∀ c ∈ s, decide (c ≠ '.') = true := by
    intro c hc
    rw [decide_eq_true_iff]
    rintro rfl
    exact hs hc
  cases hu with
  | absent =>
    have hspan : (s ++ []).span (fun c => decide (c ≠ '.')) = (s, []) :=
      span_append hpoint (by simp)
    rw [dropFraction, hspan, List.append_nil]
  | given zeros =>
    rw [dropFraction, span_append hpoint (by simp)]
    simp

theorem tidyUnsigned?_eq (hzeros : dropZeros? s = some (t ++ u)) (ht : '.' ∉ t)
    (hu : ZeroFraction u) : tidyUnsigned? s = dropUnderscores? false t := by
  rw [tidyUnsigned?, hzeros]
  simp only [Option.bind_eq_bind, Option.bind_some]
  rw [dropFraction_append ht hu]

/-- Zeros and underscores among them are passed over. -/
theorem exists_afterZeros?_append (hs : ∀ c ∈ s, c = '0' ∨ c = '_') (last : Char) (t : List Char) :
    ∃ last', afterZeros? last (s ++ t) = afterZeros? last' t := by
  induction s generalizing last with
  | nil => exact ⟨last, rfl⟩
  | cons c s ih =>
    obtain ⟨hc, hrest⟩ := List.forall_mem_cons.1 hs
    obtain rfl | rfl := hc
    · rw [List.cons_append, afterZeros?_zero]
      exact ih hrest '0'
    · rw [List.cons_append, afterZeros?_underscore]
      exact ih hrest '_'

theorem ZerosText.exists_dropZeros?_append (h : ZerosText s) (t : List Char) :
    ∃ last, dropZeros? (s ++ t) = afterZeros? last t := by
  obtain ⟨hs⟩ := h
  rw [List.cons_append, dropZeros?, if_pos rfl]
  exact exists_afterZeros?_append hs '0' t

/-- Digits and a fraction of zeros are tidied up to the digits without the zeros in front. -/
theorem WholeText.exists_tidyUnsigned?_eq {inner : Bool} (h : WholeText s inner ds)
    (hu : ZeroFraction u) :
    ∃ ds', tidyUnsigned? (s ++ u) = some (minusIf inner ++ asciiDigits ds') ∧
      (∀ d ∈ ds', d < 10) ∧ ds' ≠ [] ∧ IsTrimmed ds ds' := by
  cases h with
  | row hrow =>
    obtain ⟨s', ds', hdrop, hrow', htrimmed⟩ := exists_afterZeros?_eq hrow hu '0'
    obtain ⟨c, d, rest, _, hc, rfl, rfl⟩ := hrow.exists_cons
    have hzeros : dropZeros? (c :: rest ++ u) = some (s' ++ u) :=
      (dropZeros?_eq (isDigit_of_asciiValue? hc) (rest ++ u)).trans hdrop
    refine ⟨ds', ?_, lt_ten_of_digitRow hrow', hrow'.ne_nil, htrimmed⟩
    rw [tidyUnsigned?_eq hzeros (point_not_mem_of_digitRow hrow') hu,
      dropUnderscores?_of_digitRow hrow']
    rfl
  | @zeros z t ds hz hrow =>
    obtain ⟨last, hlast⟩ := hz.exists_dropZeros?_append (t ++ u)
    obtain ⟨s', ds', hdrop, hrow', htrimmed⟩ := exists_afterZeros?_eq hrow hu last
    refine ⟨ds', ?_, lt_ten_of_digitRow hrow', hrow'.ne_nil, htrimmed⟩
    have hpoint := point_not_mem_of_digitRow hrow'
    rw [List.append_assoc, tidyUnsigned?_eq (hlast.trans hdrop) hpoint hu,
      dropUnderscores?_of_digitRow hrow']
    rfl
  | @minus z m t ds hz hm hrow hplain =>
    obtain ⟨last, hlast⟩ := hz.exists_dropZeros?_append (('-' :: (m ++ t)) ++ u)
    have hminus : afterZeros? last (('-' :: (m ++ t)) ++ u) = some (('-' :: (m ++ t)) ++ u) := by
      rw [List.cons_append, afterZeros?]
      simp
    have hpoint : '.' ∉ '-' :: (m ++ t) := by
      have ht := point_not_mem_of_digitRow hrow
      obtain rfl | rfl := hm <;> simpa using ht
    refine ⟨ds, ?_, lt_ten_of_digitRow hrow, hrow.ne_nil, ⟨rfl, hplain⟩⟩
    rw [List.append_assoc, tidyUnsigned?_eq (hlast.trans hminus) hpoint hu, dropUnderscores?,
      if_neg (by decide)]
    obtain rfl | rfl := hm
    · rw [List.nil_append, dropUnderscores?_of_digitRow hrow]
      rfl
    · rw [List.singleton_append, dropUnderscores?, if_pos rfl, if_pos rfl,
        dropUnderscores?_of_digitRow hrow]
      rfl

end Digits

section Texts

variable {s t u w : List Char} {ds : List Nat} {negative inner : Bool} {n k : Int}

theorem splitMinus_eq (hrest : t.head? ≠ some '-') (negative : Bool) :
    splitMinus (minusIf negative ++ t) = (negative, t) := by
  cases negative with
  | true => rfl
  | false =>
    change splitMinus t = (false, t)
    unfold splitMinus
    split
    next => exact absurd rfl hrest
    next => rfl

theorem head?_asciiDigits_ne (hds : ∀ d ∈ ds, d < 10) : (asciiDigits ds).head? ≠ some '-' := by
  have hdigit : ∀ d < 10, asciiDigit d ≠ '-' := by decide
  cases ds with
  | nil => exact (Option.some_ne_none '-').symm
  | cons d ds => exact fun h => hdigit d (hds d List.mem_cons_self) (Option.some.inj h)

/-- A plain text is the text of one integer only. -/
theorem PlainText.unique (h : PlainText s n) (h' : PlainText s k) : n = k := by
  obtain @⟨ds, negative, hds, -, -⟩ := h
  generalize htext : minusIf negative ++ asciiDigits ds = s at h'
  obtain @⟨ds', negative', hds', -, -⟩ := h'
  have hsplit := congrArg splitMinus htext
  rw [splitMinus_eq (head?_asciiDigits_ne hds), splitMinus_eq (head?_asciiDigits_ne hds')] at hsplit
  obtain ⟨rfl, hdigits⟩ := Prod.mk.inj hsplit
  have hnumber := Decimal.number_asciiDigits hds
  rw [hdigits, Decimal.number_asciiDigits hds'] at hnumber
  rw [hnumber]

theorem PlainText.integerText (h : PlainText s n) : IntegerText s n := by
  obtain @⟨ds, negative, hds, hne, -⟩ := h
  have hrow : DigitRow asciiValue? (asciiDigits ds) ds :=
    DigitRow.of_map hne fun d hd => asciiValue?_asciiDigit d (hds d hd)
  have htext := IntegerText.mk (List.forall_mem_nil _) (signText_minusIf negative) hrow .absent
    (List.forall_mem_nil _)
  rwa [List.nil_append, List.append_nil, List.append_nil] at htext

theorem IntegerText.lenientText (h : IntegerText s n) : LenientText s n := by
  obtain @⟨before, s, t, u, after, negative, ds, hbefore, hsign, hrow, hu, hafter⟩ := h
  have htext := LenientText.mk hbefore hsign (.row hrow) (Bool.and_false negative) hu hafter
  rwa [Bool.or_false] at htext

theorem WholeText.exists_cons (h : WholeText w inner ds) :
    ∃ c rest, w = c :: rest ∧ c.isDigit = true := by
  cases h with
  | row hrow =>
    obtain ⟨c, _, rest, _, hc, rfl, -⟩ := hrow.exists_cons
    exact ⟨c, rest, rfl, isDigit_of_asciiValue? hc⟩
  | zeros hz _ =>
    obtain ⟨_⟩ := hz
    exact ⟨'0', _, rfl, rfl⟩
  | minus hz _ _ _ =>
    obtain ⟨_⟩ := hz
    exact ⟨'0', _, rfl, rfl⟩

theorem isWhiteSpace_of_mem_digitRow (h : DigitRow asciiValue? t ds) :
    ∀ c ∈ t, isWhiteSpace c = false := by
  intro c hc
  obtain rfl | ⟨d, hd⟩ := h.forall_mem_text c hc
  · rfl
  · obtain ⟨hlt, rfl⟩ := eq_asciiDigit hd
    exact isWhiteSpace_asciiDigit d hlt

theorem ZerosText.isWhiteSpace_of_mem (h : ZerosText s) : ∀ c ∈ s, isWhiteSpace c = false := by
  obtain ⟨hs⟩ := h
  refine List.forall_mem_cons.2 ⟨rfl, fun c hc => ?_⟩
  obtain rfl | rfl := hs c hc <;> rfl

theorem WholeText.isWhiteSpace_of_mem (h : WholeText w inner ds) :
    ∀ c ∈ w, isWhiteSpace c = false := by
  cases h with
  | row hrow => exact isWhiteSpace_of_mem_digitRow hrow
  | zeros hz hrow =>
    exact List.forall_mem_append.2 ⟨hz.isWhiteSpace_of_mem, isWhiteSpace_of_mem_digitRow hrow⟩
  | minus hz hm hrow _ =>
    refine List.forall_mem_append.2 ⟨hz.isWhiteSpace_of_mem, List.forall_mem_cons.2 ⟨rfl, ?_⟩⟩
    refine List.forall_mem_append.2 ⟨?_, isWhiteSpace_of_mem_digitRow hrow⟩
    obtain rfl | rfl := hm
    · exact List.forall_mem_nil _
    · exact List.forall_mem_singleton.2 rfl

/-- Nothing in an integer is white space but what is around it. -/
theorem isWhiteSpace_eq_false (hsign : SignText s negative) (hw : WholeText w inner ds)
    (hu : ZeroFraction u) : ∀ c ∈ s ++ (w ++ u), isWhiteSpace c = false := by
  refine List.forall_mem_append.2 ⟨?_, List.forall_mem_append.2 ⟨hw.isWhiteSpace_of_mem, ?_⟩⟩
  · cases hsign with
    | absent => exact List.forall_mem_nil _
    | plus => exact List.forall_mem_singleton.2 rfl
    | minus => exact List.forall_mem_singleton.2 rfl
  · cases hu with
    | absent => exact List.forall_mem_nil _
    | given zeros =>
      refine List.forall_mem_cons.2 ⟨rfl, List.forall_mem_cons.2 ⟨rfl, fun c hc => ?_⟩⟩
      rw [List.eq_of_mem_replicate hc]
      rfl

/-- A text is tidied up behind its sign, of which only a minus sign is kept. -/
theorem tidy?_eq (htrim : trim isWhiteSpace s = t ++ u) (hsign : SignText t negative)
    (hhead : ∀ c ∈ u.head?, c.isDigit = true) :
    tidy? s = (tidyUnsigned? u).map (minusIf negative ++ ·) := by
  rw [tidy?, htrim]
  cases hsign with
  | absent =>
    rw [List.nil_append]
    change _ = (tidyUnsigned? u).map id
    rw [Option.map_id_apply]
    split
    next => exact absurd (hhead '-' rfl) (by decide)
    next => exact absurd (hhead '+' rfl) (by decide)
    next => exact absurd (hhead '+' rfl) (by decide)
    next => rfl
  | plus =>
    change _ = (tidyUnsigned? u).map id
    rw [Option.map_id_apply, List.singleton_append]
    split
    next heq => cases heq
    next heq =>
      obtain rfl := (List.cons.inj heq).2
      exact absurd (hhead '-' rfl) (by decide)
    next heq => rw [(List.cons.inj heq).2]
    next hplus => exact absurd rfl (hplus u)
  | minus => rfl

/-- What is understood is tidied up to a plain integer. -/
theorem LenientText.exists_tidy?_eq (h : LenientText s n) :
    ∃ t, tidy? s = some t ∧ PlainText t n := by
  obtain @⟨before, s, w, u, after, negative, inner, ds, hbefore, hsign, hw, hone, hu, hafter⟩ := h
  obtain ⟨ds', htidy, hds, hne, htrimmed⟩ := hw.exists_tidyUnsigned?_eq hu
  have hblank := isWhiteSpace_eq_false hsign hw hu
  obtain ⟨c, rest, rfl, hc⟩ := hw.exists_cons
  have htrim : trim isWhiteSpace (before ++ (s ++ (c :: rest ++ u)) ++ after) =
      s ++ (c :: rest ++ u) :=
    trim_append hbefore hafter (fun c hc => hblank c (List.mem_of_mem_head? hc))
      (fun c hc => hblank c (List.mem_of_mem_getLast? hc)) (by simp)
  have hhead : ∀ c' ∈ (c :: rest ++ u).head?, c'.isDigit = true := by
    rintro _ ⟨⟩
    exact hc
  -- At most one of the two minus signs is there.
  have hsigns : minusIf negative ++ (minusIf inner ++ asciiDigits ds') =
      minusIf (negative || inner) ++ asciiDigits ds' := by
    cases negative with
    | false => rfl
    | true =>
      obtain rfl : inner = false := hone
      rfl
  refine ⟨minusIf (negative || inner) ++ asciiDigits ds', ?_, ?_⟩
  · rw [tidy?_eq htrim hsign hhead, htidy, Option.map_some, hsigns]
  · rw [← htrimmed.ofDigits_eq]
    exact .mk (negative || inner) hds hne htrimmed.plain

/-- A text is understood as one integer only. -/
theorem LenientText.unique (h : LenientText s n) (h' : LenientText s k) : n = k := by
  obtain ⟨t, htidy, hplain⟩ := h.exists_tidy?_eq
  obtain ⟨t', htidy', hplain'⟩ := h'.exists_tidy?_eq
  obtain rfl := Option.some.inj (htidy.symm.trans htidy')
  exact hplain.unique hplain'

/-- An integer has no more digits than its text. -/
theorem IntegerText.lt_pow (h : IntegerText s n) : n < (10 ^ s.countP Char.isDigit : Nat) := by
  obtain @⟨before, s, t, u, after, negative, ds, hbefore, hsign, hrow, hu, hafter⟩ := h
  have hdigits := length_le_countP hrow
  have hlength : ds.length ≤ (before ++ (s ++ (t ++ u)) ++ after).countP Char.isDigit := by
    simp only [List.countP_append]
    omega
  have hlt : ofDigits 10 ds < 10 ^ (before ++ (s ++ (t ++ u)) ++ after).countP Char.isDigit :=
    (ofDigits_lt_pow (lt_ten_of_digitRow hrow)).trans_le (Nat.pow_le_pow_right (by decide) hlength)
  generalize 10 ^ (before ++ (s ++ (t ++ u)) ++ after).countP Char.isDigit = bound at hlt
  cases negative with
  | false =>
    rw [if_neg Bool.false_ne_true]
    omega
  | true =>
    rw [if_pos rfl]
    omega

end Texts

end HalfPrecision.Text.Integer
