import HalfPrecision.Proofs.Text.IntegerText

/-!
# Which texts are read as integers

A plain integer is read if it has not too many characters, which only depends on the integer. What
is tidied up to a plain integer is an integer with white space, signs, zeros and underscores where
the grammar allows for them. Together they tell from which texts an integer is read: from those that
are understood and stand for an integer that is not too large.
-/

namespace HalfPrecision.Text.Integer

open Decimal (SignText asciiDigits minusIf signText_minusIf)

/-- An integer of not too many characters, among which its minus sign is counted. -/
structure FitsSize (n : Int) : Prop where
  low : -(10 ^ (sizeLimit - 1) : Nat) < n
  high : n < (10 ^ sizeLimit : Nat)

section Plain

variable {s : List Char} {ds : List Nat} {negative : Bool} {n : Int}

theorem pow_le_ofDigits_of_isPlainRow (hplain : IsPlainRow ds) (hlength : 1 < ds.length) :
    10 ^ (ds.length - 1) ≤ ofDigits 10 ds := by
  cases ds with
  | nil => exact absurd hlength (Nat.not_lt_zero 1)
  | cons d ds =>
    refine pow_length_le_ofDigits ?_ ds
    rintro rfl
    exact hlength.ne' (hplain rfl)

/-- How many plain digits there are can be told from their number. -/
theorem ofDigits_lt_pow_iff (hds : ∀ d ∈ ds, d < 10) (hplain : IsPlainRow ds) {places : Nat}
    (hplaces : places ≠ 0) : ofDigits 10 ds < 10 ^ places ↔ ds.length ≤ places := by
  constructor
  · intro hlt
    by_contra hlong
    have hbound := pow_le_ofDigits_of_isPlainRow hplain (by omega)
    have hpow : 10 ^ places ≤ 10 ^ (ds.length - 1) := Nat.pow_le_pow_right (by decide) (by omega)
    omega
  · intro hlength
    exact (ofDigits_lt_pow hds).trans_le (Nat.pow_le_pow_right (by decide) hlength)

theorem fitsSize_iff (hds : ∀ d ∈ ds, d < 10) (hplain : IsPlainRow ds) :
    FitsSize (if negative then -(ofDigits 10 ds : Int) else ofDigits 10 ds) ↔
      ds.length + negative.toNat ≤ sizeLimit := by
  have hlow : 0 < 10 ^ (sizeLimit - 1) := Nat.pow_pos (by decide)
  have hhigh : 0 < 10 ^ sizeLimit := Nat.pow_pos (by decide)
  cases negative with
  | false =>
    rw [Bool.toNat_false, Nat.add_zero, ← ofDigits_lt_pow_iff hds hplain (by decide),
      if_neg Bool.false_ne_true]
    constructor
    · rintro ⟨-, h⟩
      exact Int.ofNat_lt.1 h
    · intro h
      refine ⟨?_, Int.ofNat_lt.2 h⟩
      generalize 10 ^ (sizeLimit - 1) = bound at hlow
      omega
  | true =>
    have hlength : ds.length + true.toNat ≤ sizeLimit ↔ ds.length ≤ sizeLimit - 1 := by
      rw [Bool.toNat_true]
      exact (Nat.le_sub_one_iff_lt (by decide)).symm
    rw [hlength, ← ofDigits_lt_pow_iff hds hplain (by decide), if_pos rfl]
    constructor
    · rintro ⟨h, -⟩
      exact Int.ofNat_lt.1 (neg_lt_neg_iff.1 h)
    · intro h
      refine ⟨neg_lt_neg_iff.2 (Int.ofNat_lt.2 h), ?_⟩
      generalize 10 ^ sizeLimit = bound at hhigh
      omega

/-- Plain digits are read as their number, unless there are too many. -/
theorem ofPlain_asciiDigits (hds : ∀ d ∈ ds, d < 10) (hne : ds ≠ []) (hplain : IsPlainRow ds)
    (negative : Bool) :
    ofPlain (minusIf negative ++ asciiDigits ds) =
      if ds.length + negative.toNat > sizeLimit then .error .overlong
      else .ok (if negative then -(ofDigits 10 ds : Int) else ofDigits 10 ds) := by
  obtain ⟨d, rest, rfl⟩ := List.exists_cons_of_ne_nil hne
  have hd := hds d List.mem_cons_self
  have hzero : ∀ d < 10, asciiDigit d = '0' → d = 0 := by decide
  have hspan : (asciiDigits (d :: rest) ++ []).span Char.isDigit = (asciiDigits (d :: rest), []) :=
    Decimal.span_asciiDigits hds (by simp)
  rw [List.append_nil] at hspan
  have hnumber : ofDigits 10 ((asciiDigits (d :: rest)).map fun c => c.toNat - 48) =
      ofDigits 10 (d :: rest) := Decimal.number_asciiDigits hds
  have hlength : (asciiDigits (d :: rest)).length = (d :: rest).length := List.length_map _
  have hfirst : ¬ ((asciiDigits (d :: rest)).isEmpty ||
      (decide ((asciiDigits (d :: rest)).head? = some '0') &&
        decide ((d :: rest).length ≠ 1))) = true := by
    rw [asciiDigits, List.map_cons, List.isEmpty_cons, Bool.false_or, Bool.and_eq_true,
      decide_eq_true_iff, decide_eq_true_iff]
    rintro ⟨hhead, hlong⟩
    obtain rfl := hzero d hd (Option.some.inj hhead)
    exact hlong (hplain rfl)
  rw [ofPlain, splitMinus_eq (head?_asciiDigits_ne hds)]
  simp only [hspan, hlength, hnumber, if_neg hfirst]
  rfl

/-- What a text starts with: a minus sign, if there is one, and digits. -/
theorem exists_ofPlain_split (s : List Char) :
    ∃ negative ds rest, s = minusIf negative ++ (ds ++ rest) ∧ (∀ c ∈ ds, c.isDigit = true) ∧
      splitMinus s = (negative, ds ++ rest) ∧ (ds ++ rest).span Char.isDigit = (ds, rest) := by
  obtain ⟨negative, unsigned, hs, hsplit⟩ :
      ∃ negative unsigned, s = minusIf negative ++ unsigned ∧
        splitMinus s = (negative, unsigned) := by
    unfold splitMinus
    split
    · exact ⟨true, _, rfl, rfl⟩
    · exact ⟨false, _, rfl, rfl⟩
  have hspan := List.span_eq_takeWhile_dropWhile Char.isDigit unsigned
  refine ⟨negative, unsigned.takeWhile Char.isDigit, unsigned.dropWhile Char.isDigit, ?_, ?_, ?_,
    ?_⟩
  · rw [List.takeWhile_append_dropWhile, hs]
  · intro c hc
    exact List.mem_takeWhile_imp hc
  · rw [List.takeWhile_append_dropWhile, hsplit]
  · rw [List.takeWhile_append_dropWhile, hspan]

theorem exists_asciiDigits_eq (h : ∀ c ∈ s, c.isDigit = true) :
    ∃ ds, s = asciiDigits ds ∧ ∀ d ∈ ds, d < 10 := by
  induction s with
  | nil => exact ⟨[], rfl, List.forall_mem_nil _⟩
  | cons c s ih =>
    obtain ⟨hc, hs⟩ := List.forall_mem_cons.1 h
    obtain ⟨ds, rfl, hds⟩ := ih hs
    obtain ⟨hlt, hchar⟩ := eq_asciiDigit (if_pos hc)
    exact ⟨(c.toNat - 48) :: ds, congrArg (· :: asciiDigits ds) hchar,
      List.forall_mem_cons.2 ⟨hlt, hds⟩⟩

/-- Only plain integers are read as they stand. -/
theorem plainText_of_ofPlain_eq_ok (h : ofPlain s = .ok n) : PlainText s n := by
  obtain ⟨negative, cs, rest, rfl, hcs, hsplit, hspan⟩ := exists_ofPlain_split s
  rw [ofPlain, hsplit] at h
  simp only [hspan] at h
  split at h
  · cases h
  next hfirst =>
    split at h
    · cases h
    split at h
    · cases h
    next hrest =>
      obtain rfl : rest = [] := by simpa using hrest
      obtain ⟨ds, rfl, hds⟩ := exists_asciiDigits_eq hcs
      have hnumber : ofDigits 10 ((asciiDigits ds).map fun c => c.toNat - 48) = ofDigits 10 ds :=
        Decimal.number_asciiDigits hds
      have hne : ds ≠ [] := by
        rintro rfl
        exact hfirst rfl
      have hplain : IsPlainRow ds := by
        intro hhead
        by_contra hlong
        have hzero : (asciiDigits ds).head? = some '0' := by
          rw [asciiDigits, List.head?_map, hhead]
          rfl
        have hlength : (asciiDigits ds).length = ds.length := List.length_map _
        simp [hzero, hlength, hlong] at hfirst
      rw [← Except.ok.inj h, hnumber, List.append_nil]
      exact .mk negative hds hne hplain

theorem ofPlain_eq_ok_iff : ofPlain s = .ok n ↔ PlainText s n ∧ FitsSize n := by
  constructor
  · intro h
    have hplain := plainText_of_ofPlain_eq_ok h
    refine ⟨hplain, ?_⟩
    obtain @⟨ds, negative, hds, hne, hrow⟩ := hplain
    rw [ofPlain_asciiDigits hds hne hrow] at h
    split at h
    · cases h
    next hsize => exact (fitsSize_iff hds hrow).2 (not_lt.1 hsize)
  · rintro ⟨@⟨ds, negative, hds, hne, hrow⟩, hfits⟩
    have hsize := (fitsSize_iff hds hrow).1 hfits
    rw [ofPlain_asciiDigits hds hne hrow, if_neg (not_lt.2 hsize)]

end Plain

section Tidy

variable {s t : List Char} {last : Char} {ds : List Nat} {inner : Bool} {n : Int}

/-- What is passed over are zeros with underscores. -/
theorem exists_of_afterZeros?_eq_some (hlast : last = '0' ∨ last = '_')
    (h : afterZeros? last s = some t) :
    ∃ z, last :: s = z ++ t ∧ ∀ c ∈ z, c = '0' ∨ c = '_' := by
  induction s generalizing last with
  | nil =>
    obtain rfl := Option.some.inj h
    exact ⟨[], rfl, List.forall_mem_nil _⟩
  | cons c s ih =>
    rw [afterZeros?] at h
    split at h
    next hzero =>
      have hc : c = '0' ∨ c = '_' := by simpa using hzero
      obtain ⟨z, hz, hzeros⟩ := ih hc h
      exact ⟨last :: z, congrArg (last :: ·) hz, List.forall_mem_cons.2 ⟨hlast, hzeros⟩⟩
    split at h
    next =>
      obtain rfl := Option.some.inj h
      exact ⟨[last], rfl, List.forall_mem_singleton.2 hlast⟩
    split at h
    next =>
      obtain rfl := Option.some.inj h
      exact ⟨[], rfl, List.forall_mem_nil _⟩
    next => cases h

theorem exists_of_dropZeros?_eq_some (h : dropZeros? s = some t) :
    ∃ z, s = z ++ t ∧ (z = [] ∨ ZerosText z) := by
  cases s with
  | nil => cases h
  | cons c s =>
    rw [dropZeros?] at h
    split at h
    next hzero =>
      subst hzero
      obtain ⟨z, hz, hzeros⟩ := exists_of_afterZeros?_eq_some (.inl rfl) h
      cases z with
      | nil => exact ⟨[], hz, .inl rfl⟩
      | cons c z =>
        obtain rfl := (List.cons.inj hz).1
        exact ⟨'0' :: z, hz, .inr (.mk (List.forall_mem_cons.1 hzeros).2)⟩
    split at h
    next =>
      obtain rfl := Option.some.inj h
      exact ⟨[], rfl, .inl rfl⟩
    next => cases h

/-- Only a fraction of zeros is dropped. -/
theorem exists_eq_dropFraction_append (s : List Char) :
    ∃ u, s = dropFraction s ++ u ∧ ZeroFraction u := by
  have hsplit : s = s.takeWhile (· ≠ '.') ++ s.dropWhile (· ≠ '.') :=
    List.takeWhile_append_dropWhile.symm
  rw [dropFraction, List.span_eq_takeWhile_dropWhile]
  split
  next whole point digit rest hspan =>
    obtain ⟨hwhole, hdrop⟩ := Prod.mk.inj hspan
    split
    next hzeros =>
      rw [hwhole, hdrop] at hsplit
      have hpoint : point = '.' := by
        have hhead := List.head?_dropWhile_not (fun c : Char => decide (c ≠ '.')) s
        rw [hdrop] at hhead
        simpa using hhead
      have hall : ∀ c ∈ digit :: rest, c = '0' := by simpa using hzeros
      obtain ⟨rfl, hrest⟩ := List.forall_mem_cons.1 hall
      rw [hpoint, List.eq_replicate_of_mem hrest] at hsplit
      exact ⟨_, hsplit, .given rest.length⟩
    next => exact ⟨[], (List.append_nil s).symm, .absent⟩
  next => exact ⟨[], (List.append_nil s).symm, .absent⟩

theorem eq_nil_of_dropUnderscores?_eq_nil {afterOther : Bool}
    (h : dropUnderscores? afterOther s = some []) : afterOther = true ∧ s = [] := by
  induction s generalizing afterOther with
  | nil =>
    rw [dropUnderscores?] at h
    split at h
    next hother => exact ⟨hother, rfl⟩
    next => cases h
  | cons c s ih =>
    rw [dropUnderscores?] at h
    split at h
    next =>
      split at h
      next => exact absurd (ih h).1 Bool.false_ne_true
      next => cases h
    next =>
      obtain ⟨s', _, hcons⟩ := Option.map_eq_some_iff.1 h
      cases hcons

/-- Digits are left only by digits. An underscore in front of them follows another character. -/
theorem exists_of_dropUnderscores?_eq_asciiDigits {afterOther : Bool}
    (h : dropUnderscores? afterOther s = some (asciiDigits ds)) (hds : ∀ d ∈ ds, d < 10)
    (hne : ds ≠ []) :
    ∃ m t, s = m ++ t ∧ (m = [] ∨ afterOther = true ∧ m = ['_']) ∧
      DigitRow asciiValue? t ds := by
  induction s generalizing afterOther ds with
  | nil =>
    rw [dropUnderscores?] at h
    split at h
    next => exact absurd (List.map_eq_nil_iff.1 (Option.some.inj h).symm) hne
    next => cases h
  | cons c s ih =>
    rw [dropUnderscores?] at h
    split at h
    next hunderscore =>
      subst hunderscore
      split at h
      next hother =>
        obtain ⟨m, t, rfl, hm, hrow⟩ := ih h hds hne
        obtain rfl : m = [] := hm.resolve_right fun hfalse => Bool.false_ne_true hfalse.1
        exact ⟨['_'], t, rfl, .inr ⟨hother, rfl⟩, hrow⟩
      next => cases h
    next =>
      obtain ⟨s', hs', hcons⟩ := Option.map_eq_some_iff.1 h
      obtain ⟨d, ds, rfl⟩ := List.exists_cons_of_ne_nil hne
      obtain ⟨rfl, rfl⟩ := List.cons.inj hcons
      obtain ⟨hd, hds⟩ := List.forall_mem_cons.1 hds
      have hc := asciiValue?_asciiDigit d hd
      refine ⟨[], _, rfl, .inl rfl, ?_⟩
      by_cases hlast : ds = []
      · subst hlast
        obtain ⟨-, rfl⟩ := eq_nil_of_dropUnderscores?_eq_nil hs'
        exact .one hc
      · obtain ⟨m, t, rfl, rfl | ⟨-, rfl⟩, hrow⟩ := ih hs' hds hlast
        · exact .next hc hrow
        · exact .group hc hrow

/-- What is tidied up to digits is understood. Zeros stand in front of the minus sign, if any. -/
theorem exists_wholeText_of_tidyUnsigned?_eq_some
    (h : tidyUnsigned? s = some (minusIf inner ++ asciiDigits ds))
    (hhead : inner = true → s.head? ≠ some '-') (hds : ∀ d ∈ ds, d < 10) (hne : ds ≠ [])
    (hplain : IsPlainRow ds) : ∃ w u, s = w ++ u ∧ WholeText w inner ds ∧ ZeroFraction u := by
  obtain ⟨x, hx, hrest⟩ := Option.bind_eq_some_iff.1 h
  obtain ⟨z, rfl, hz⟩ := exists_of_dropZeros?_eq_some hx
  obtain ⟨u, hu, hzero⟩ := exists_eq_dropFraction_append x
  generalize dropFraction x = y at hrest hu
  subst hu
  rw [← List.append_assoc]
  refine ⟨z ++ y, u, rfl, ?_, hzero⟩
  cases inner with
  | false =>
    obtain ⟨m, t, rfl, rfl | ⟨hfalse, -⟩, hrow⟩ :=
      exists_of_dropUnderscores?_eq_asciiDigits hrest hds hne
    · obtain rfl | hz := hz
      · exact .row hrow
      · exact .zeros hz hrow
    · exact absurd hfalse Bool.false_ne_true
  | true =>
    cases y with
    | nil => cases hrest
    | cons c y =>
      rw [dropUnderscores?] at hrest
      split at hrest
      · cases hrest
      obtain ⟨s', hs', hcons⟩ := Option.map_eq_some_iff.1 hrest
      obtain ⟨rfl, rfl⟩ := List.cons.inj hcons
      obtain ⟨m, t, rfl, hm, hrow⟩ := exists_of_dropUnderscores?_eq_asciiDigits hs' hds hne
      obtain rfl | hz := hz
      · exact absurd rfl (hhead rfl)
      · exact .minus hz (hm.imp_right And.right) hrow hplain

/-- What is tidied up to a plain integer is understood. -/
theorem lenientText_of_tidy?_eq_some (h : tidy? s = some t) (ht : PlainText t n) :
    LenientText s n := by
  obtain @⟨ds, negative, hds, hne, hplain⟩ := ht
  obtain ⟨before, after, hs, hbefore, hafter⟩ := exists_eq_trim isWhiteSpace s
  -- The sign and what follows it make an integer of what is trimmed.
  have hlenient {sign rest : List Char} {outer inner : Bool}
      (htrim : trim isWhiteSpace s = sign ++ rest) (hsign : SignText sign outer)
      (hrest : tidyUnsigned? rest = some (minusIf inner ++ asciiDigits ds))
      (hone : (outer && inner) = false) (hhead : inner = true → rest.head? ≠ some '-') :
      LenientText s (if outer || inner then -(ofDigits 10 ds : Int) else ofDigits 10 ds) := by
    obtain ⟨w, u, rfl, hw, hu⟩ :=
      exists_wholeText_of_tidyUnsigned?_eq_some hrest hhead hds hne hplain
    rw [hs, htrim]
    exact .mk hbefore hsign hw hone hu hafter
  rw [tidy?] at h
  split at h
  next rest htrim =>
    obtain ⟨v, hv, hcons⟩ := Option.map_eq_some_iff.1 h
    cases negative with
    | false =>
      refine absurd ?_ (head?_asciiDigits_ne hds)
      rw [← List.nil_append (asciiDigits ds)]
      exact congrArg List.head? hcons.symm
    | true =>
      obtain rfl := (List.cons.inj hcons).2
      have hdigits : tidyUnsigned? rest = some (minusIf false ++ asciiDigits ds) := hv
      exact hlenient htrim .minus hdigits rfl fun hfalse => absurd hfalse Bool.false_ne_true
  next => cases h
  next rest hrest htrim =>
    refine hlenient htrim .plus h (Bool.false_and _) fun _ hminus => ?_
    obtain ⟨rest, rfl⟩ := List.head?_eq_some_iff.1 hminus
    exact hrest rest rfl
  next hrest _ _ =>
    refine hlenient rfl .absent h (Bool.false_and _) fun _ hminus => ?_
    obtain ⟨rest, hminus⟩ := List.head?_eq_some_iff.1 hminus
    exact hrest rest hminus

/-- What is understood is what is tidied up to a plain integer. -/
theorem lenientText_iff : LenientText s n ↔ ∃ t, tidy? s = some t ∧ PlainText t n := by
  constructor
  · exact LenientText.exists_tidy?_eq
  · rintro ⟨t, htidy, hplain⟩
    exact lenientText_of_tidy?_eq_some htidy hplain

end Tidy

section Overlong

variable {s u v w after : List Char} {ds : List Nat} {negative : Bool} {n : Int}

/-- What is refused at once starts with too many digits, none of which is a zero in front. -/
theorem of_ofPlain_eq_overlong (h : ofPlain s = .error .overlong) :
    ∃ negative v, s = minusIf negative ++ v ∧ v.head? ≠ some '0' ∧
      sizeLimit < (v.takeWhile Char.isDigit).length + negative.toNat := by
  obtain ⟨negative, ds, rest, rfl, -, hsplit, hspan⟩ := exists_ofPlain_split s
  have hrun : (ds ++ rest).takeWhile Char.isDigit = ds := by
    rw [List.span_eq_takeWhile_dropWhile] at hspan
    exact congrArg Prod.fst hspan
  rw [ofPlain, hsplit] at h
  simp only [hspan] at h
  split at h
  · cases h
  next hfirst =>
    split at h
    next hlong =>
      refine ⟨negative, ds ++ rest, rfl, ?_, by rwa [hrun]⟩
      have hmany : 1 < ds.length := by
        have hminus := Bool.toNat_le negative
        have hlimit : sizeLimit = 4300 := rfl
        omega
      intro hzero
      rw [List.head?_append_of_ne_nil _ (List.ne_nil_of_length_pos (by omega))] at hzero
      simp [hzero, hmany.ne'] at hfirst
    next => split at h <;> cases h

/-- The digits that come before an underscore are only some of all. -/
theorem length_takeWhile_le (h : DigitRow asciiValue? s ds) :
    (s.takeWhile Char.isDigit).length ≤ ds.length := by
  induction h with
  | one hc =>
    rw [List.takeWhile_cons_of_pos (isDigit_of_asciiValue? hc)]
    exact le_rfl
  | next hc _ ih =>
    rw [List.takeWhile_cons_of_pos (isDigit_of_asciiValue? hc)]
    exact Nat.succ_le_succ ih
  | group hc _ ih =>
    rw [List.takeWhile_cons_of_pos (isDigit_of_asciiValue? hc)]
    exact Nat.succ_le_succ (Nat.zero_le _)

/-- The digits that a text starts with bound its number from below, unless the first is a zero. -/
theorem pow_le_ofDigits_of_head?_ne (h : DigitRow asciiValue? s ds) (hhead : s.head? ≠ some '0') :
    10 ^ ((s.takeWhile Char.isDigit).length - 1) ≤ ofDigits 10 ds := by
  have hrun := length_takeWhile_le h
  obtain ⟨c, d, rest, ds, hc, rfl, rfl⟩ := h.exists_cons
  have hd : d ≠ 0 := by
    rintro rfl
    exact hhead (congrArg some (eq_asciiDigit hc).2)
  exact (Nat.pow_le_pow_right (by decide) (Nat.sub_le_of_le_add hrun)).trans
    (pow_length_le_ofDigits hd ds)

theorem isWhiteSpace_eq_false_of_isDigit {c : Char} (hc : c.isDigit = true) :
    isWhiteSpace c = false := by
  obtain ⟨hlt, hchar⟩ := eq_asciiDigit (if_pos hc)
  rw [hchar]
  exact isWhiteSpace_asciiDigit _ hlt

theorem ZeroFraction.isDigit_head?_eq_false (hu : ZeroFraction u)
    (hafter : ∀ c ∈ after, isWhiteSpace c) : ∀ c ∈ (u ++ after).head?, c.isDigit = false := by
  intro c hc
  cases hu with
  | absent =>
    by_contra hdigit
    have hblank := isWhiteSpace_eq_false_of_isDigit (eq_true_of_ne_false hdigit)
    rw [hafter c (List.mem_of_mem_head? hc)] at hblank
    cases hblank
  | given zeros =>
    obtain rfl := Option.some.inj hc
    rfl

/-- A text that goes on with a digit behind its minus sign can be split in one way only. -/
theorem eq_of_minusIf_append_eq {minus : Bool} (hsign : SignText s negative)
    (hv : ∃ c rest, v = c :: rest ∧ c.isDigit = true)
    (hw : ∃ c rest, w = c :: rest ∧ c.isDigit = true)
    (h : minusIf minus ++ v = s ++ w) : negative = minus ∧ v = w := by
  obtain ⟨c, v, rfl, hc⟩ := hv
  obtain ⟨c', w, rfl, hc'⟩ := hw
  cases minus with
  | false =>
    cases hsign with
    | absent => exact ⟨rfl, h⟩
    | plus =>
      obtain rfl := (List.cons.inj h).1
      exact absurd hc (by decide)
    | minus =>
      obtain rfl := (List.cons.inj h).1
      exact absurd hc (by decide)
  | true =>
    cases hsign with
    | absent =>
      obtain rfl := (List.cons.inj h).1
      exact absurd hc' (by decide)
    | plus => exact absurd (List.cons.inj h).1 (by decide)
    | minus => exact ⟨rfl, (List.cons.inj h).2⟩

/-- What is understood starts with a row of digits if it starts with a digit other than zero. -/
theorem LenientText.exists_digitRow {minus : Bool} (h : LenientText (minusIf minus ++ v) n)
    (hv : ∃ c rest, v = c :: rest ∧ c.isDigit = true) (hzero : v.head? ≠ some '0') :
    ∃ t ds rest, v = t ++ rest ∧ DigitRow asciiValue? t ds ∧
      (∀ c ∈ rest.head?, c.isDigit = false) ∧
      n = if minus then -(ofDigits 10 ds : Int) else ofDigits 10 ds := by
  generalize htext : minusIf minus ++ v = text at h
  obtain @⟨before, s, w, u, after, negative, inner, ds, hbefore, hsign, hw, -, hu, hafter⟩ := h
  cases before with
  | cons c before =>
    have hwhite := hbefore c List.mem_cons_self
    have hblack : isWhiteSpace c = false := by
      obtain ⟨c', rest, rfl, hc'⟩ := hv
      cases minus with
      | false =>
        obtain rfl := (List.cons.inj htext).1
        exact isWhiteSpace_eq_false_of_isDigit hc'
      | true =>
        obtain rfl := (List.cons.inj htext).1
        rfl
    rw [hblack] at hwhite
    cases hwhite
  | nil =>
    obtain ⟨c, rest, hcons, hc⟩ := hw.exists_cons
    have htail : ∃ c rest, w ++ (u ++ after) = c :: rest ∧ c.isDigit = true :=
      ⟨c, rest ++ (u ++ after), congrArg (· ++ (u ++ after)) hcons, hc⟩
    rw [List.nil_append, List.append_assoc, List.append_assoc] at htext
    obtain ⟨rfl, rfl⟩ := eq_of_minusIf_append_eq hsign hv htail htext
    cases hw with
    | row hrow =>
      rw [Bool.or_false]
      exact ⟨w, ds, u ++ after, rfl, hrow, hu.isDigit_head?_eq_false hafter, rfl⟩
    | zeros hz _ =>
      obtain ⟨_⟩ := hz
      exact absurd rfl hzero
    | minus hz _ _ _ =>
      obtain ⟨_⟩ := hz
      exact absurd rfl hzero

/-- An integer whose text is refused at once has too many characters. -/
theorem LenientText.not_fitsSize (h : LenientText s n) (hoverlong : ofPlain s = .error .overlong) :
    ¬ FitsSize n := by
  obtain ⟨minus, v, rfl, hzero, hlong⟩ := of_ofPlain_eq_overlong hoverlong
  have hminus := Bool.toNat_le minus
  have hlimit : 1 < sizeLimit := by decide
  have hv : ∃ c rest, v = c :: rest ∧ c.isDigit = true := by
    cases v with
    | nil =>
      rw [List.takeWhile_nil, List.length_nil] at hlong
      omega
    | cons c v =>
      refine ⟨c, v, rfl, ?_⟩
      by_contra hc
      rw [List.takeWhile_cons_of_neg hc, List.length_nil] at hlong
      omega
  obtain ⟨t, ds, rest, rfl, hrow, hrest, rfl⟩ := h.exists_digitRow hv hzero
  have hne : t ≠ [] := by
    obtain ⟨c, d, rest, _, -, rfl, -⟩ := hrow.exists_cons
    exact List.cons_ne_nil c rest
  rw [List.head?_append_of_ne_nil _ hne] at hzero
  rw [takeWhile_append hrest] at hlong
  have hbound := pow_le_ofDigits_of_head?_ne hrow hzero
  rintro ⟨hlow, hhigh⟩
  cases minus with
  | false =>
    rw [Bool.toNat_false] at hlong
    have hpow : 10 ^ sizeLimit ≤ ofDigits 10 ds :=
      (Nat.pow_le_pow_right (by decide) (by omega)).trans hbound
    exact absurd (Int.ofNat_lt.1 hhigh) (not_lt.2 hpow)
  | true =>
    rw [Bool.toNat_true] at hlong
    have hpow : 10 ^ (sizeLimit - 1) ≤ ofDigits 10 ds :=
      (Nat.pow_le_pow_right (by decide) (by omega)).trans hbound
    exact absurd (Int.ofNat_lt.1 (neg_lt_neg_iff.1 hlow)) (not_lt.2 hpow)

end Overlong

/-- An integer is read from the texts that are understood, unless it has too many characters. -/
theorem ofText_eq_ok_iff {text : String} {n : Int} :
    ofText text = .ok n ↔ LenientText text.toList n ∧ FitsSize n := by
  constructor
  · intro h
    unfold ofText at h
    split at h
    next =>
      split at h
      next k hread =>
        obtain rfl := Except.ok.inj h
        obtain ⟨t, htidy, ht⟩ := Option.map_eq_some_iff.1 hread
        obtain ⟨hplain, hfits⟩ := ofPlain_eq_ok_iff.1 ht
        exact ⟨lenientText_iff.2 ⟨t, htidy, hplain⟩, hfits⟩
      next => cases h
    next =>
      obtain ⟨hplain, hfits⟩ := ofPlain_eq_ok_iff.1 h
      exact ⟨hplain.integerText.lenientText, hfits⟩
  · rintro ⟨htext, hfits⟩
    unfold ofText
    split
    next =>
      obtain ⟨t, htidy, hplain⟩ := lenientText_iff.1 htext
      rw [htidy, Option.map_some, ofPlain_eq_ok_iff.2 ⟨hplain, hfits⟩]
    next hresult =>
      cases hread : ofPlain text.toList with
      | error fault =>
        cases fault with
        | unreadable => exact absurd hread hresult
        | overlong => exact absurd hfits (htext.not_fitsSize hread)
      | ok k =>
        rw [(plainText_of_ofPlain_eq_ok hread).integerText.lenientText.unique htext]

end HalfPrecision.Text.Integer
