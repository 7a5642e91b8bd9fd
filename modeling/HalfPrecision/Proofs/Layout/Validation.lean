import HalfPrecision.Layout.Validation
import HalfPrecision.Proofs.Capacity
import HalfPrecision.Proofs.Conversion.Nearest
import HalfPrecision.Proofs.Layout.Order
import HalfPrecision.Proofs.Text.IntegerReading

/-!
# The two stages of validation

A value is right for its parameter if it stands for a text, an integer or a positive integer, as the
parameter asks. Unless all values are right, the parameters of the others are listed in their order.
Right values must satisfy two equations, that of the width before that of the bias, and make a
layout if they do. An integer may as well be given by a text with not too many digits.
-/

namespace HalfPrecision

namespace Layout

section Readings

open Text.Integer (LenientText FitsSize ofText_eq_ok_iff)

/-- The integer of a pattern is its value, if that is one. -/
theorem integer?_eq_some_iff (L : Layout) {bits n : Int} :
    L.integer? bits = some n ↔ L.IsFinite bits ∧ L.value bits = n := by
  have hmagnitude : (L.magnitude (L.fields bits).exponent (L.fields bits).mantissa).toRat =
      L.magnitudeValue (L.magnitudeBits bits) := by
    rw [magnitudeBits_eq]
    exact L.toRat_magnitude (L.mantissa_lt bits)
  rw [integer?]
  generalize L.magnitude (L.fields bits).exponent (L.fields bits).mantissa = q at hmagnitude ⊢
  by_cases hinf : (L.fields bits).exponent = L.exponentMax
  · have hfinite : ¬ L.IsFinite bits := fun h => h hinf
    simp [hinf, hfinite]
  · have hfinite : L.IsFinite bits := hinf
    rw [and_iff_right hfinite]
    simp only [if_neg hinf]
    by_cases hsign : (L.fields bits).sign = 0
    · rw [value_of_sign_eq_zero hsign, ← hmagnitude, q.toRat_eq_intCast_iff]
      by_cases hrest : q.num % q.den = 0 <;> simp [hrest, hsign]
    · rw [value_of_sign_ne_zero hsign, ← hmagnitude, neg_eq_iff_eq_neg, ← Int.cast_neg,
        q.toRat_eq_intCast_iff]
      by_cases hrest : q.num % q.den = 0 <;> simp [hrest, hsign, neg_eq_iff_eq_neg]

/-- What stands for an integer: the integer itself, a truth value, a double without a fraction that
is not too large, or a text that is understood as an integer of not too many characters. -/
inductive Denotes : Option Untyped → Int → Prop
  | integer (n : Int) : Denotes (some (.integer n)) n
  | bool (b : Bool) : Denotes (some (.bool b)) b.toNat
  | double {pattern : Nat} {n : Int} : double.IsFinite pattern → double.value pattern = n →
      -doubleLimit < n → n < doubleLimit → Denotes (some (.double pattern)) n
  | text {s : String} {n : Int} : LenientText s.toList n → FitsSize n → Denotes (some (.text s)) n

variable {value : Option Untyped} {n : Int}

theorem readText_eq_ok_iff {s : String} : readText value = .ok s ↔ value = some (.text s) := by
  constructor
  · intro h
    unfold readText at h
    split at h
    next => rw [Except.ok.inj h]
    next => cases h
    next => cases h
  · rintro rfl
    rfl

theorem readInteger_eq_ok_iff : readInteger value = .ok n ↔ Denotes value n := by
  constructor
  · intro h
    unfold readInteger at h
    split at h
    next => cases h
    next => exact Except.ok.inj h ▸ .integer _
    next => exact Except.ok.inj h ▸ .bool _
    next =>
      split at h
      next hread =>
        obtain ⟨htext, hfits⟩ := ofText_eq_ok_iff.1 hread
        exact Except.ok.inj h ▸ .text htext hfits
      next => cases h
      next => cases h
    next =>
      split at h
      next hinteger =>
        obtain ⟨hfinite, hvalue⟩ := (integer?_eq_some_iff _).1 hinteger
        split at h
        next hlimit => exact Except.ok.inj h ▸ .double hfinite hvalue hlimit.1 hlimit.2
        next => cases h
      next => cases h
    next => cases h
  · intro h
    cases h with
    | integer => rfl
    | bool => rfl
    | double hfinite hvalue hlow hhigh =>
      have hinteger := (integer?_eq_some_iff double).2 ⟨hfinite, hvalue⟩
      simp only [readInteger, hinteger, if_pos (And.intro hlow hhigh)]
    | text htext hfits => simp only [readInteger, ofText_eq_ok_iff.2 ⟨htext, hfits⟩]

theorem readPositive_eq_ok_iff {k : { n : Nat // 0 < n }} :
    readPositive value = .ok k ↔ Denotes value k.1 := by
  rw [← readInteger_eq_ok_iff, readPositive]
  cases hread : readInteger value with
  | error defect => simp
  | ok n =>
    obtain ⟨k, hk⟩ := k
    by_cases hpos : 0 < n.toNat
    · simp only [dif_pos hpos, Except.ok.injEq, Subtype.mk.injEq]
      omega
    · simp only [dif_neg hpos, Except.ok.injEq, reduceCtorEq, false_iff]
      omega

end Readings

section Parameters

/-- The parameters in the order in which they are checked. -/
def Parameter.inOrder : List Parameter := [.name, .width, .exponentBits, .mantissaBits, .bias]

/-- Whether a value is right for a parameter. -/
def Parameter.Takes (value : Option Untyped) : Parameter → Prop
  | .name => ∃ s, value = some (.text s)
  | .bias => ∃ n, Denotes value n
  | _ => ∃ n, 0 < n ∧ Denotes value n

/-- The defect of a value that could not be read. -/
def defect? {α : Type} : Except Defect α → Option Defect
  | .ok _ => none
  | .error defect => some defect

/-- What is wrong with a value for a parameter. -/
def Parameter.defect? (value : Option Untyped) : Parameter → Option Defect
  | .name => Layout.defect? (readText value)
  | .bias => Layout.defect? (readInteger value)
  | _ => Layout.defect? (readPositive value)

theorem defect?_eq_none_iff {α : Type} {r : Except Defect α} :
    defect? r = none ↔ ∃ a, r = .ok a := by
  cases r <;> simp [defect?]

theorem defectsOf_eq {α : Type} (p : Parameter) (r : Except Defect α) :
    defectsOf p r = ((defect? r).map (p, ·)).toList := by
  cases r <;> rfl

theorem exists_readPositive_eq_ok_iff {value : Option Untyped} :
    (∃ k, readPositive value = .ok k) ↔ ∃ n, 0 < n ∧ Denotes value n := by
  constructor
  · rintro ⟨k, hread⟩
    exact ⟨k.1, Int.natCast_pos.2 k.2, readPositive_eq_ok_iff.1 hread⟩
  · rintro ⟨n, hn, hvalue⟩
    obtain ⟨k, rfl⟩ := Int.eq_ofNat_of_zero_le hn.le
    exact ⟨⟨k, Int.natCast_pos.1 hn⟩, readPositive_eq_ok_iff.2 hvalue⟩

/-- A value is right if nothing is wrong with it. -/
theorem Parameter.defect?_eq_none_iff {value : Option Untyped} {p : Parameter} :
    p.defect? value = none ↔ p.Takes value := by
  cases p with
  | name => simp only [Parameter.defect?, Layout.defect?_eq_none_iff, readText_eq_ok_iff, Takes]
  | bias => simp only [Parameter.defect?, Layout.defect?_eq_none_iff, readInteger_eq_ok_iff, Takes]
  | _ =>
    simp only [Parameter.defect?, Layout.defect?_eq_none_iff, exists_readPositive_eq_ok_iff, Takes]

instance (value : Option Untyped) (p : Parameter) : Decidable (p.Takes value) :=
  decidable_of_iff _ Parameter.defect?_eq_none_iff

end Parameters

section Candidates

open Text (DigitRow)
open Text.Integer (IntegerText FitsSize sizeLimit)

/-- The value that is given for a parameter. -/
def Candidate.value? (c : Candidate) : Parameter → Option Untyped
  | .name => c.name
  | .width => c.width
  | .exponentBits => c.exponentBits
  | .mantissaBits => c.mantissaBits
  | .bias => c.bias

/-- The values with that for one parameter replaced. -/
def Candidate.give (c : Candidate) (p : Parameter) (value : Untyped) : Candidate :=
  match p with
  | .name => { c with name := some value }
  | .width => { c with width := some value }
  | .exponentBits => { c with exponentBits := some value }
  | .mantissaBits => { c with mantissaBits := some value }
  | .bias => { c with bias := some value }

/-- What five right values stand for. -/
structure Values where
  name : String
  width : Nat
  exponentBits : Nat
  mantissaBits : Nat
  bias : Int

/-- The values of a layout. -/
def values (L : Layout) : Values where
  name := L.name
  width := L.width
  exponentBits := L.exponentBits
  mantissaBits := L.mantissaBits
  bias := L.bias

/-- The values that give a layout. -/
def candidate (L : Layout) : Candidate where
  name := some (.text L.name)
  width := some (.integer L.width)
  exponentBits := some (.integer L.exponentBits)
  mantissaBits := some (.integer L.mantissaBits)
  bias := some (.integer L.bias)

/-- `c.Gives v`: the values are right, and `v` is what they stand for. -/
structure Candidate.Gives (c : Candidate) (v : Values) : Prop where
  name : c.name = some (.text v.name)
  width : Denotes c.width v.width
  width_pos : 0 < v.width
  exponentBits : Denotes c.exponentBits v.exponentBits
  exponentBits_pos : 0 < v.exponentBits
  mantissaBits : Denotes c.mantissaBits v.mantissaBits
  mantissaBits_pos : 0 < v.mantissaBits
  bias : Denotes c.bias v.bias

/-- What becomes of right values: the widths are compared first, then the bias with the one that the
exponent field implies, if this can be made. -/
structure Values.IsAnswer (capacity : Capacity) (v : Values) (answer : Except Rejection Layout) :
    Prop where
  width : 1 + v.exponentBits + v.mantissaBits ≠ v.width →
    answer = .error (.inconsistent (.width v.name v.exponentBits v.mantissaBits v.width))
  bias : 1 + v.exponentBits + v.mantissaBits = v.width →
    v.exponentBits - 1 ≤ capacity.memoryBits → v.bias ≠ biasOf v.exponentBits →
    answer = .error (.inconsistent (.bias v.name v.exponentBits v.bias))
  layout : 1 + v.exponentBits + v.mantissaBits = v.width →
    v.exponentBits - 1 ≤ capacity.memoryBits → v.bias = biasOf v.exponentBits →
    ∃ L : Layout, answer = .ok L ∧ L.values = v
  beyondCapacity : 1 + v.exponentBits + v.mantissaBits = v.width →
    capacity.memoryBits < v.exponentBits - 1 → ∃ cause, answer = .error (.beyondCapacity cause)

variable {capacity : Capacity} {c : Candidate} {v : Values}

/-- The defects of the values, in the order of the parameters. -/
def Candidate.found (c : Candidate) : List (Parameter × Defect) :=
  Parameter.inOrder.filterMap fun p => (p.defect? (c.value? p)).map (p, ·)

/-- The parameters of the defects are those whose values are not right. -/
theorem Candidate.map_fst_found (c : Candidate) :
    c.found.map Prod.fst = Parameter.inOrder.filter fun p => ¬ p.Takes (c.value? p) := by
  rw [found, List.map_filterMap, ← List.filterMap_eq_filter]
  refine List.filterMap_congr fun p _ => ?_
  cases hdefect : p.defect? (c.value? p) with
  | none => simp [Option.guard, Parameter.defect?_eq_none_iff.1 hdefect]
  | some defect =>
    have hnot : ¬ p.Takes (c.value? p) := by
      rw [← Parameter.defect?_eq_none_iff, hdefect]
      exact Option.some_ne_none defect
    simp [Option.guard, hnot]

/-- Unless all values are right, their defects are listed. -/
theorem Candidate.validate_of_offending (h : ∃ p : Parameter, ¬ p.Takes (c.value? p)) :
    c.validate capacity = .error (.defects c.found) := by
  have hfound : c.found = defectsOf .name (readText c.name) ++
      defectsOf .width (readPositive c.width) ++
      defectsOf .exponentBits (readPositive c.exponentBits) ++
      defectsOf .mantissaBits (readPositive c.mantissaBits) ++
      defectsOf .bias (readInteger c.bias) := by
    simp only [found, List.filterMap_eq_flatMap_toList, Parameter.inOrder, List.flatMap_cons,
      List.flatMap_nil, defectsOf_eq, List.append_assoc, List.append_nil]
    rfl
  rw [hfound, Candidate.validate]
  split
  next hname hwidth hexponent hmantissa hbias =>
    obtain ⟨p, hp⟩ := h
    refine absurd (Parameter.defect?_eq_none_iff.1 ?_) hp
    cases p with
    | name => exact defect?_eq_none_iff.2 ⟨_, hname⟩
    | width => exact defect?_eq_none_iff.2 ⟨_, hwidth⟩
    | exponentBits => exact defect?_eq_none_iff.2 ⟨_, hexponent⟩
    | mantissaBits => exact defect?_eq_none_iff.2 ⟨_, hmantissa⟩
    | bias => exact defect?_eq_none_iff.2 ⟨_, hbias⟩
  next => rfl

theorem Candidate.exists_gives (h : ∀ p : Parameter, p.Takes (c.value? p)) : ∃ v, c.Gives v := by
  obtain ⟨name, hname⟩ := h .name
  obtain ⟨width, hwidth_pos, hwidth⟩ := h .width
  obtain ⟨exponentBits, hexponent_pos, hexponent⟩ := h .exponentBits
  obtain ⟨mantissaBits, hmantissa_pos, hmantissa⟩ := h .mantissaBits
  obtain ⟨bias, hbias⟩ := h .bias
  lift width to Nat using hwidth_pos.le
  lift exponentBits to Nat using hexponent_pos.le
  lift mantissaBits to Nat using hmantissa_pos.le
  exact ⟨{ name, width, exponentBits, mantissaBits, bias }, {
    name := hname
    width := hwidth
    width_pos := Int.natCast_pos.1 hwidth_pos
    exponentBits := hexponent
    exponentBits_pos := Int.natCast_pos.1 hexponent_pos
    mantissaBits := hmantissa
    mantissaBits_pos := Int.natCast_pos.1 hmantissa_pos
    bias := hbias }⟩

theorem Candidate.Gives.validate_eq (h : c.Gives v) :
    c.validate capacity = ofValues capacity v.name v.width ⟨v.exponentBits, h.exponentBits_pos⟩
      ⟨v.mantissaBits, h.mantissaBits_pos⟩ v.bias := by
  have hwidth : readPositive c.width = .ok ⟨v.width, h.width_pos⟩ :=
    readPositive_eq_ok_iff.2 h.width
  have hexponent : readPositive c.exponentBits = .ok ⟨v.exponentBits, h.exponentBits_pos⟩ :=
    readPositive_eq_ok_iff.2 h.exponentBits
  have hmantissa : readPositive c.mantissaBits = .ok ⟨v.mantissaBits, h.mantissaBits_pos⟩ :=
    readPositive_eq_ok_iff.2 h.mantissaBits
  rw [validate, readText_eq_ok_iff.2 h.name, hwidth, hexponent, hmantissa,
    readInteger_eq_ok_iff.2 h.bias]

theorem Candidate.Gives.isAnswer (h : c.Gives v) :
    v.IsAnswer capacity (c.validate capacity) := by
  rw [h.validate_eq, ofValues]
  constructor
  · intro hwidth
    rw [if_pos hwidth]
  · intro hwidth hmemory hbias
    rw [if_neg (not_not.2 hwidth), Capacity.checkShift_one_eq_ok_iff.2 hmemory]
    exact if_pos hbias
  · intro hwidth hmemory hbias
    rw [if_neg (not_not.2 hwidth), Capacity.checkShift_one_eq_ok_iff.2 hmemory]
    refine ⟨_, if_neg (not_not.2 hbias), ?_⟩
    rw [values, width_eq, Layout.bias, hwidth, ← hbias]
  · intro hwidth hmemory
    rw [if_neg (not_not.2 hwidth)]
    obtain ⟨cause, hcause⟩ := Capacity.exists_checkShift_one_eq_error hmemory
    rw [hcause]
    exact ⟨cause, rfl⟩

/-- A layout has right values. -/
theorem gives_candidate (L : Layout) : L.candidate.Gives L.values where
  name := rfl
  width := .integer _
  width_pos := by
    change 0 < L.width
    rw [width_eq]
    omega
  exponentBits := .integer _
  exponentBits_pos := L.exponentBits_pos
  mantissaBits := .integer _
  mantissaBits_pos := L.mantissaBits_pos
  bias := .integer _

theorem gives_give_bias (L : Layout) (n : Int) :
    (L.candidate.give .bias (.integer n)).Gives { L.values with bias := n } :=
  { L.gives_candidate with bias := .integer n }

/-- A layout is made from its values with no other bias. -/
theorem validate_give_bias (L : Layout) (hmemory : L.exponentBits - 1 ≤ capacity.memoryBits)
    {n : Int} (hn : n ≠ L.bias) :
    (L.candidate.give .bias (.integer n)).validate capacity =
      .error (.inconsistent (.bias L.name L.exponentBits n)) :=
  (L.gives_give_bias n).isAnswer.bias rfl hmemory hn

/-- Values from which the same integer is read are validated alike. -/
theorem Candidate.validate_give_congr {u w : Untyped} {p : Parameter} (hp : p ≠ .name)
    (h : readInteger (some u) = readInteger (some w)) (c : Candidate) :
    (c.give p u).validate capacity = (c.give p w).validate capacity := by
  have hpositive : readPositive (some u) = readPositive (some w) := by
    rw [readPositive, readPositive, h]
  cases p with
  | name => exact absurd rfl hp
  | bias => simp only [validate, give, h]
  | _ => simp only [validate, give, hpositive]

/-- A defect is never of the kind of an inconsistency. -/
theorem Defect.kind_ne (d : Defect) : d.kind ≠ "value_error" := by
  cases d <;> decide

/-- Values are checked in two stages. If some are not right, exactly the parameters of these are
listed, in their order and without an inconsistency. If all are right, the width decides before the
bias. An integer may as well be given by a text of it, unless that has too many digits, a minus sign
being counted among those of the integer. -/
theorem Candidate.validate_in_stages (capacity : Capacity) (c : Candidate) :
    ((∃ p : Parameter, ¬ p.Takes (c.value? p)) →
      ∃ found : List (Parameter × Defect), c.validate capacity = .error (.defects found) ∧
        found.map Prod.fst = Parameter.inOrder.filter (fun p => ¬ p.Takes (c.value? p)) ∧
        ∀ entry ∈ found, entry.2.kind ≠ "value_error") ∧
    ((∀ p : Parameter, p.Takes (c.value? p)) →
      ∃ v, c.Gives v ∧ v.IsAnswer capacity (c.validate capacity)) ∧
    ∀ p ≠ .name, ∀ (text : String) (n : Int), IntegerText text.toList n →
      text.toList.countP Char.isDigit ≤ sizeLimit → -(10 ^ (sizeLimit - 1) : Nat) < n →
      (c.give p (.text text)).validate capacity = (c.give p (.integer n)).validate capacity := by
  refine ⟨fun h => ?_, fun h => ?_, fun p hp text n htext hdigits hlow => ?_⟩
  · exact ⟨c.found, validate_of_offending h, c.map_fst_found, fun entry _ => entry.2.kind_ne⟩
  · obtain ⟨v, hv⟩ := exists_gives h
    exact ⟨v, hv, hv.isAnswer⟩
  · have hpow : 10 ^ text.toList.countP Char.isDigit ≤ 10 ^ sizeLimit :=
      Nat.pow_le_pow_right (by decide) hdigits
    have hfits : FitsSize n := ⟨hlow, htext.lt_pow.trans_le (Int.ofNat_le.2 hpow)⟩
    have hread := readInteger_eq_ok_iff.2 (.text htext.lenientText hfits)
    exact c.validate_give_congr hp (hread.trans (readInteger_eq_ok_iff.2 (.integer n)).symm)

theorem Candidate.validate_in_stages_half :
    (∃ found, (half.candidate.give .name .null).validate .workstation = .error (.defects found) ∧
      found.map Prod.fst = [.name]) ∧
    (∃ v, half.candidate.Gives v ∧
      v.IsAnswer .workstation (half.candidate.validate .workstation)) ∧
    IntegerText " +01_6.0 ".toList 16 ∧
    (half.candidate.give .width (.text " +01_6.0 ")).validate .workstation =
      (half.candidate.give .width (.integer 16)).validate .workstation := by
  have hdigits : DigitRow Text.Integer.asciiValue? ['0', '1', '_', '6'] [0, 1, 6] :=
    .next rfl (.group rfl (.one rfl))
  have htext : IntegerText " +01_6.0 ".toList 16 := by
    have hblank : ∀ c ∈ [' '], Text.isWhiteSpace c = true := List.forall_mem_singleton.2 rfl
    exact IntegerText.mk hblank .plus hdigits (.given 0) hblank
  obtain ⟨found, hfound, hparameters, -⟩ :=
    (validate_in_stages .workstation (half.candidate.give .name .null)).1 ⟨.name, by decide⟩
  have hgiven : ∀ p : Parameter, p.Takes (half.candidate.value? p) := by
    intro p
    cases p <;> decide
  refine ⟨⟨found, hfound, hparameters.trans (by decide)⟩,
    (validate_in_stages .workstation half.candidate).2.1 hgiven, htext, ?_⟩
  exact (validate_in_stages .workstation half.candidate).2.2 .width (by decide) _ _ htext (by decide)
    ((neg_nonpos.2 (Int.natCast_nonneg _)).trans_lt (by decide))

end Candidates

section Limits

open Text (ofDigits)
open Text.Integer (IntegerText FitsSize sizeLimit)
open Decimal (minusIf asciiDigits)

variable {count : Nat}

/-- A minus sign and ones. -/
def negativeOnes (count : Nat) : String := String.ofList ('-' :: List.replicate count '1')

theorem toList_negativeOnes (count : Nat) :
    (negativeOnes count).toList = minusIf true ++ asciiDigits (List.replicate count 1) := by
  rw [negativeOnes, String.toList_ofList, asciiDigits, List.map_replicate]
  rfl

theorem countP_isDigit_negativeOnes (count : Nat) :
    (negativeOnes count).toList.countP Char.isDigit = count := by
  rw [negativeOnes, String.toList_ofList, List.countP_cons_of_neg (by decide),
    List.countP_replicate, if_pos (by decide)]

theorem lt_ten_of_mem_replicate_one : ∀ d ∈ List.replicate count 1, d < 10 := by
  intro d hd
  rw [List.eq_of_mem_replicate hd]
  decide

theorem isPlainRow_ones : Text.Integer.IsPlainRow (List.replicate count 1) := fun hhead =>
  absurd (List.eq_of_mem_replicate (List.mem_of_head? hhead)) zero_ne_one

theorem integerText_negativeOnes (hcount : count ≠ 0) :
    IntegerText (negativeOnes count).toList (-(ofDigits 10 (List.replicate count 1) : Int)) := by
  have hne : List.replicate count 1 ≠ [] := mt (List.replicate_eq_nil_iff 1).1 hcount
  rw [toList_negativeOnes]
  exact (Text.Integer.PlainText.mk true lt_ten_of_mem_replicate_one hne isPlainRow_ones).integerText

/-- The minus sign is counted among the digits. -/
theorem not_fitsSize_negativeOnes (hcount : sizeLimit ≤ count) :
    ¬ FitsSize (-(ofDigits 10 (List.replicate count 1) : Int)) := by
  intro hfits
  have hsize : (List.replicate count 1).length + true.toNat ≤ sizeLimit :=
    (Text.Integer.fitsSize_iff lt_ten_of_mem_replicate_one isPlainRow_ones).1 hfits
  rw [List.length_replicate, Bool.toNat_true] at hsize
  omega

theorem validate_negativeOnes (capacity : Capacity) (hcount : sizeLimit ≤ count) (L : Layout) :
    ∃ found, (L.candidate.give .bias (.text (negativeOnes count))).validate capacity =
      .error (.defects found) := by
  have hne : count ≠ 0 := (lt_of_lt_of_le (by decide) hcount).ne'
  have hrefused : ¬ Parameter.bias.Takes (some (.text (negativeOnes count))) := by
    rintro ⟨n, hn⟩
    cases hn with
    | text htext hfits =>
      obtain rfl := htext.unique (integerText_negativeOnes hne).lenientText
      exact not_fitsSize_negativeOnes hcount hfits
  exact ⟨_, Candidate.validate_of_offending ⟨.bias, hrefused⟩⟩

/-- A layout whose bias cannot be made. -/
def vast : Layout where
  name := "vast"
  exponentBits := 0x400000000000000000
  mantissaBits := 10
  exponentBits_pos := Nat.succ_pos _
  mantissaBits_pos := Nat.succ_pos _

/-- The minus sign is counted, so a negative integer of 4300 digits is not read from its text. Right
values whose widths add up make neither a layout nor an inconsistency if the bias to compare with
cannot be made. -/
theorem validate_beyond_limits :
    IntegerText (negativeOnes 4300).toList (-(ofDigits 10 (List.replicate 4300 1) : Int)) ∧
    (negativeOnes 4300).toList.countP Char.isDigit = 4300 ∧
    (half.candidate.give .bias (.text (negativeOnes 4300))).validate .workstation ≠
      (half.candidate.give .bias
        (.integer (-(ofDigits 10 (List.replicate 4300 1))))).validate .workstation ∧
    (vast.candidate.give .bias (.integer 0)).Gives { vast.values with bias := 0 } ∧
    1 + vast.exponentBits + vast.mantissaBits = vast.width ∧
    ∃ cause, (vast.candidate.give .bias (.integer 0)).validate .workstation =
      .error (.beyondCapacity cause) := by
  have hgives := vast.gives_give_bias 0
  refine ⟨integerText_negativeOnes (by decide), countP_isDigit_negativeOnes 4300, ?_, hgives, rfl,
    hgives.isAnswer.beyondCapacity rfl (by decide)⟩
  obtain ⟨found, hfound⟩ := validate_negativeOnes .workstation (show sizeLimit ≤ 4300 by decide) half
  generalize ofDigits 10 (List.replicate 4300 1) = k
  have hbias : (-k : Int) ≠ half.bias := by
    have hfifteen : half.bias = 15 := rfl
    omega
  rw [hfound, half.validate_give_bias (by decide) hbias]
  intro h
  cases h

end Limits

end Layout

end HalfPrecision
