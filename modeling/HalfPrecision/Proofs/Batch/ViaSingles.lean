import HalfPrecision.Proofs.Batch.Arrays
import HalfPrecision.Proofs.Conversion.EvenFirst

/-!
# Arrays of doubles, with and without singles in between

An array of doubles becomes one of halves at once, or its doubles are rounded to singles first, a tie
going to the even one. The two results have one shape and differ nowhere but at the doubles just
below a midpoint of halves that are raised to it: these become the next greater half. What is no
array is refused either way.
-/

namespace HalfPrecision

open Layout

/-- How the half that a double becomes by way of a single stands to the half that it becomes at
once. -/
structure ViaSingle (leaf half direct : Nat) : Prop where
  sign_single : (single.fields (double.convertToEven single leaf)).sign = (double.fields leaf).sign
  nearest_single : double.IsFinite leaf → single.IsNearestEven |double.value leaf|
    (single.magnitudeBits (double.convertToEven single leaf))
  narrowed : narrow single .half (double.convertToEven single leaf) = .ok half
  narrowed_direct : narrow double .half leaf = .ok direct
  sign_eq : (Layout.half.fields half).sign = (Layout.half.fields direct).sign
  raised : IsRaisedToMidpoint single .half (double.value leaf) (double.convertToEven single leaf)
      (Layout.half.magnitudeBits direct) →
    Layout.half.magnitudeBits half = Layout.half.magnitudeBits direct + 1
  same : ¬ IsRaisedToMidpoint single .half (double.value leaf) (double.convertToEven single leaf)
      (Layout.half.magnitudeBits direct) →
    half = direct
  /-- Singles are not rounded on the way. -/
  exact : (¬ double.IsFinite leaf ∨
      ∃ pattern, single.IsFinite pattern ∧ single.value pattern = double.value leaf) →
    half = direct

namespace Layout

variable {A B C : Layout} {bits : Int}

/-- What has its value in `B` is not raised to a midpoint there. -/
theorem not_isRaisedToMidpoint {pattern : Int} (hfinite : A.IsFinite bits)
    (hpattern : B.IsFinite pattern) (hvalue : B.value pattern = A.value bits) (magnitude : Nat) :
    ¬ IsRaisedToMidpoint B C (A.value bits) (A.convertToEven B bits) magnitude := by
  rintro ⟨-, hmid, hbelow⟩
  have hnear := (isNearestEven_convertedMagnitude (T := B) hfinite).isNearest
  rw [← hvalue, abs_value] at hnear
  have hsame := hnear.eq_of_magnitudeValue ((B.isFinite_iff pattern).1 hpattern).le
  rw [abs_value, magnitudeBits_convertToEven, hsame, ← abs_value, hvalue] at hmid
  exact hbelow.ne hmid

end Layout

theorem viaSingle {leaf half direct : Nat}
    (hhalf : narrow single .half (double.convertToEven single leaf) = .ok half)
    (hdirect : narrow double .half leaf = .ok direct) : ViaSingle leaf half direct := by
  have hAB : double.Extends single := single_extends_double
  have hBC : single.Extends .half := half_extends_single
  have hsecond : narrowPattern single .half (double.convertToEven single leaf) = half :=
    Except.ok.inj ((narrow_eq_ok hBC _).symm.trans hhalf)
  have honce : narrowPattern double .half leaf = direct :=
    Except.ok.inj ((narrow_eq_ok (hAB.trans hBC) _).symm.trans hdirect)
  obtain ⟨hsign, hraised, hsame⟩ :=
    hAB.narrowPattern_convertToEven hBC (by decide) honce hsecond
  refine ⟨sign_convertToEven, ?_, hhalf, hdirect, hsign, hraised, hsame, ?_⟩
  · intro hfinite
    rw [magnitudeBits_convertToEven]
    exact isNearestEven_convertedMagnitude hfinite
  · intro hexact
    apply hsame
    -- A midpoint above the value is not its single; infinities and NaNs have none above them.
    by_cases hfinite : double.IsFinite leaf
    · obtain ⟨pattern, hpattern, hvalue⟩ := hexact.resolve_left (not_not.2 hfinite)
      exact not_isRaisedToMidpoint hfinite hpattern hvalue _
    · rintro ⟨hlt, -⟩
      rw [← honce, magnitudeBits_narrowPattern (hAB.trans hBC)] at hlt
      exact absurd hlt (infinity_le_narrowed hfinite).not_gt

namespace Arrays

variable {cell : ProbeCell} {v : Nested Nat}

/-- What is no grid is refused. -/
theorem gridOf_eq_ragged (h : ¬ ∃ shape, v.HasShape shape ∧ shape.length ≤ Nested.axisLimit)
    (reversed : Bool) : gridOf reversed v = .error .ragged := by
  have hnone : v.toGrid? = none := by
    rw [Nested.toGrid?]
    split
    next shape hshape =>
      exact if_neg fun hrank => h ⟨shape, Nested.hasShape_iff.2 hshape, hrank⟩
    next => rfl
  rw [gridOf, hnone]

/-- What is related to a list item by item has a related item in each place. -/
theorem exists_getElem?_of_forall₂ {α β : Type} {related : α → β → Prop} {l : List α} {l' : List β}
    (h : List.Forall₂ related l l') {i : Nat} {a : α} (ha : l[i]? = some a) :
    ∃ b, l'[i]? = some b ∧ related a b := by
  obtain ⟨hi, rfl⟩ := List.getElem?_eq_some_iff.1 ha
  have hi' : i < l'.length := h.length_eq ▸ hi
  exact ⟨l'[i], List.getElem?_eq_getElem hi', h.get hi hi'⟩

/-- On the native platform the halves that an array of doubles becomes by way of singles stand in
the places of those that it becomes at once, and are the same but for those raised to a midpoint.
What is no array is refused either way. -/
theorem singlesToHalves_doublesToHalves (hcell : cell.get.answer = .ok .native) (v : Nested Nat) :
    (∀ shape, v.HasShape shape → shape.length ≤ Nested.axisLimit →
      ∃ halves directs,
        (singlesToHalves cell false v).answer = .ok halves ∧
        (doublesToHalves cell false v).answer = .ok directs ∧
        halves.shape = directs.shape ∧
        halves.cells.length = v.leaves.length ∧ directs.cells.length = v.leaves.length ∧
        ∀ (i leaf : Nat), v.leaves[i]? = some leaf → ∃ half direct,
          halves.cells[i]? = some half ∧ directs.cells[i]? = some direct ∧
          ViaSingle leaf half direct) ∧
    ((¬ ∃ shape, v.HasShape shape ∧ shape.length ≤ Nested.axisLimit) →
      (singlesToHalves cell false v).answer = .error .ragged ∧
      (doublesToHalves cell false v).answer = .error .ragged) := by
  constructor
  · intro shape hshape hrank
    obtain ⟨halves, hhalves, hhalvesShape, hrelated, -⟩ :=
      elementwise_singlesToHalves hcell hshape hrank
    obtain ⟨directs, hdirects, hdirectsShape, hrelated', -⟩ :=
      elementwise_doublesToHalves hcell hshape hrank
    refine ⟨halves, directs, hhalves, hdirects, hhalvesShape.trans hdirectsShape.symm,
      hrelated.length_eq.symm, hrelated'.length_eq.symm, ?_⟩
    intro i leaf hleaf
    obtain ⟨half, hhalf, hnarrow⟩ := exists_getElem?_of_forall₂ hrelated hleaf
    obtain ⟨direct, hdirect, hnarrow'⟩ := exists_getElem?_of_forall₂ hrelated' hleaf
    have honce : narrowPattern double .half leaf = direct := Except.ok.inj hnarrow'
    refine ⟨half, direct, hhalf, hdirect, viaSingle hnarrow ?_⟩
    rw [narrow_eq_ok half_extends_double, honce]
  · intro hragged
    rw [singlesToHalves, doublesToHalves, gridOf_eq_ragged hragged]
    exact ⟨rfl, rfl⟩

/-- The doubles just below the midpoint under infinity and below the midpoint above minus one are
raised to them; the least denormal of the singles is not. -/
theorem singlesToHalves_doublesToHalves_three :
    ∃ halves directs,
      (singlesToHalves (.ofPlatform .native) false (.node
        [.leaf 0x40EFFDFFFFFFFFFF, .leaf 0xBFF001FFFFFFFFFF, .leaf 0x36A0000000000000])).answer =
          .ok halves ∧
      (doublesToHalves (.ofPlatform .native) false (.node
        [.leaf 0x40EFFDFFFFFFFFFF, .leaf 0xBFF001FFFFFFFFFF, .leaf 0x36A0000000000000])).answer =
          .ok directs ∧
      halves.shape = directs.shape ∧
      halves.cells[0]? = some 0x7C00 ∧ directs.cells[0]? = some 0x7BFF ∧
      halves.cells[1]? = some 0xBC01 ∧ directs.cells[1]? = some 0xBC00 ∧
      halves.cells[2]? = some 0 ∧ directs.cells[2]? = some 0 := by
  obtain ⟨halves, directs, hhalves, hdirects, hshape, -, -, hcells⟩ :=
    (@singlesToHalves_doublesToHalves (.ofPlatform .native) rfl (.node
      [.leaf 0x40EFFDFFFFFFFFFF, .leaf 0xBFF001FFFFFFFFFF, .leaf 0x36A0000000000000])).1
      [3] (Nested.hasShape_iff.2 rfl) (by decide)
  have hat (i leaf half direct : Nat)
      (hleaf : [0x40EFFDFFFFFFFFFF, 0xBFF001FFFFFFFFFF, 0x36A0000000000000][i]? = some leaf)
      (hhalf : narrow single .half (double.convertToEven single leaf) = .ok half)
      (hdirect : narrow double .half leaf = .ok direct) :
      halves.cells[i]? = some half ∧ directs.cells[i]? = some direct := by
    obtain ⟨half', direct', hhalf', hdirect', hstands⟩ := hcells i leaf hleaf
    rw [hhalf', hdirect', Except.ok.inj (hstands.narrowed.symm.trans hhalf),
      Except.ok.inj (hstands.narrowed_direct.symm.trans hdirect)]
    exact ⟨rfl, rfl⟩
  obtain ⟨hhalf₀, hdirect₀⟩ := hat 0 _ 0x7C00 0x7BFF rfl (by decide) (by decide)
  obtain ⟨hhalf₁, hdirect₁⟩ := hat 1 _ 0xBC01 0xBC00 rfl (by decide) (by decide)
  obtain ⟨hhalf₂, hdirect₂⟩ := hat 2 _ 0 0 rfl (by decide) (by decide)
  exact ⟨halves, directs, hhalves, hdirects, hshape, hhalf₀, hdirect₀, hhalf₁, hdirect₁, hhalf₂,
    hdirect₂⟩

end Arrays

end HalfPrecision
