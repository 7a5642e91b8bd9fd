import HalfPrecision.CommandLine.Inspection
import HalfPrecision.Proofs.CommandLine.Withdrawal
import HalfPrecision.Proofs.Inspect.Description
import HalfPrecision.Proofs.Inspect.Entry

/-!
# How a run of the inspector ends

A run reads its command line, and then each value into a pattern that fits a built-in layout, so
every description that it asks for is given. It ends with a status or at a level that is not known.
It breaks off only where an option on its command line has been left without its argument.
-/

namespace HalfPrecision.CommandLine

open Inspect Text

/-- A run that ends in order has a status, or was given the name of no level. -/
def Ending.IsOrderly : Ending → Prop
  | status code => code ≤ 2
  | unknownLevel name => Log.Level.ofName? name = none
  | noLevel | noLayout | probeFailed _ | notDescribed _ => False

theorem Ending.isOrderly_status {code : Nat} (h : code ≤ 2) : (status code).IsOrderly := h

@[simp] theorem Transcript.ending_after (rest : Transcript) (stdout stderr : String) :
    (rest.after stdout stderr).ending = rest.ending := rfl

section Values

variable {L : Option Layout}

/-- A text that is not read ends the run with a complaint, or it is a bit pattern without a
layout. -/
theorem ending_of_enter_eq_error {text : String} {ended : Transcript}
    (h : enter text L = .error ended) :
    ended.ending.IsOrderly ∨ ended.ending = .noLayout ∧ L = none := by
  unfold enter at h
  cases L with
  | some layout =>
      cases hparse : parse text layout with
      | error e =>
          simp only [hparse] at h
          cases h
          exact .inl (Ending.isOrderly_status le_rfl)
      | ok entered =>
          simp only [hparse] at h
          cases h
  | none =>
      simp only at h
      split at h
      · cases h
        exact .inl (Ending.isOrderly_status le_rfl)
      · cases h
        exact .inr ⟨rfl, rfl⟩
      · cases h

/-- A text that is read gives a pattern that fits a built-in layout. -/
theorem fits_of_enter_eq_ok (hL : ∀ layout, L = some layout → layout.isBuiltIn = true)
    {text : String} {bits : Nat} {own : Layout} (h : enter text L = .ok (bits, own)) :
    own.isBuiltIn = true ∧ own.Fits bits := by
  unfold enter at h
  cases L with
  | some layout =>
      cases hparse : parse text layout with
      | error e =>
          simp only [hparse] at h
          cases h
      | ok entered =>
          simp only [hparse] at h
          cases h
          exact fits_of_parse_eq_ok (hL layout rfl) hparse
  | none =>
      simp only at h
      split at h
      · cases h
      · cases h
      next double hentry =>
        cases h
        obtain ⟨_, hpattern, _⟩ | ⟨numeral, hvalue, _⟩ := Entry.ofText_eq_ok hentry
        · cases hpattern
        · cases hvalue
          exact ⟨rfl, Layout.fits_natCast numeral.toDouble_lt⟩

/-- Values are shown up to the first one that is not read. -/
theorem ending_inspectAll {p : Platform} (hp : p.ieee754 = true)
    (hL : ∀ layout, L = some layout → layout.isBuiltIn = true) (threshold : Log.Level)
    (texts : List String) :
    let ending := (inspectAll p threshold L texts).ending
    ending.IsOrderly ∨ ending = .noLayout ∧ L = none := by
  induction texts with
  | nil => exact .inl (Ending.isOrderly_status (Nat.zero_le 2))
  | cons text rest ih =>
      rw [inspectAll]
      cases henter : enter text L with
      | error ended => exact ending_of_enter_eq_error henter
      | ok entered =>
          obtain ⟨bits, own⟩ := entered
          obtain ⟨hown, hfits⟩ := fits_of_enter_eq_ok hL henter
          obtain ⟨description, hdescribe⟩ := exists_describe_eq_ok hp hown hfits
          simp only [hdescribe, Transcript.ending_after]
          exact ih

end Values

section Run

variable {cell : ProbeCell} {p : Platform} (hcell : cell.get.answer = .ok p)

include hcell

theorem ending_inspectAt {settings : Settings}
    (hL : ∀ layout, settings.source = some layout → layout.isBuiltIn = true)
    (threshold : Log.Level) :
    let ending := (inspectAt cell threshold settings).ending
    ending.IsOrderly ∨ ending = .noLayout ∧ settings.source = none := by
  unfold inspectAt
  simp only [hcell]
  split
  next hp => exact ending_inspectAll hp hL threshold settings.values
  next => exact .inl (Ending.isOrderly_status (by decide))

theorem ending_run (arguments : List String) :
    let ending := (run cell arguments).ending
    ending.IsOrderly ∨ (ending = .noLevel ∧ ∃ a ∈ arguments, Withdraws .logLevel a) ∨
      (ending = .noLayout ∧ ∃ a ∈ arguments, Withdraws .source a) := by
  unfold run
  split
  next e herror => exact .inl (Ending.isOrderly_status le_rfl)
  next hhelp => exact .inl (Ending.isOrderly_status (Nat.zero_le 2))
  next settings hsettings =>
    have hexplained := explained_of_ofArguments hsettings
    unfold inspect
    split
    next hnone => exact .inr (.inl ⟨rfl, hexplained.logLevelWithdrawn hnone⟩)
    next name hname =>
      split
      next hunknown => exact .inl hunknown
      next threshold hthreshold =>
        rcases ending_inspectAt hcell hexplained.isBuiltIn threshold with h | ⟨h, hnone⟩
        · exact .inl h
        · exact .inr (.inr ⟨h, hexplained.sourceWithdrawn hnone⟩)

end Run

/-- Whatever is read is described, and a run that was not left without a level or a layout ends in
order. -/
theorem parse_described_and_run_ends {L : Layout} (hL : L.isBuiltIn = true) {cell : ProbeCell}
    {p : Platform} (hcell : cell.get.answer = .ok p) (text : String) (arguments : List String) :
    (∀ bits own, parse text L = .ok (bits, own) →
      own = (if StartsAsPattern (strip text.toList) then L else .double) ∧
        bits < 2 ^ own.width ∧
          ∀ q : Platform, q.ieee754 = true → ∃ lines, describe q own bits = .ok lines) ∧
      ((run cell arguments).ending.IsOrderly ∨
        ((run cell arguments).ending = .noLevel ∧ ∃ a ∈ arguments, Withdraws .logLevel a) ∨
          ((run cell arguments).ending = .noLayout ∧ ∃ a ∈ arguments, Withdraws .source a)) := by
  refine ⟨?_, ending_run hcell arguments⟩
  intro bits own hparse
  obtain ⟨hown, hlt⟩ := parse_eq_ok hparse
  obtain ⟨hbuiltIn, hfits⟩ := fits_of_parse_eq_ok hL hparse
  exact ⟨hown, hlt, fun q hq => exists_describe_eq_ok hq hbuiltIn hfits⟩

/-- A capital prefix after blanks makes a pattern of a single, and a value that cannot be read ends
a run with a complaint. -/
theorem parse_described_and_run_ends_single :
    parse " 0X3FC00000\n" .single = .ok (0x3FC00000, .single) ∧
      (∃ lines, describe .native .single 0x3FC00000 = .ok lines) ∧
        (run (.ofPlatform .native) ["--from", "single", "0x"]).ending = .status 2 ∧
          (run (.ofPlatform .native) ["--from", "single", "0x"]).ending.IsOrderly := by
  have hparse : parse " 0X3FC00000\n" .single = .ok (0x3FC00000, .single) := by decide +kernel
  have hrun : (run (.ofPlatform .native) ["--from", "single", "0x"]).ending = .status 2 := by
    decide +kernel
  obtain ⟨hread, hends⟩ := @parse_described_and_run_ends .single rfl (.ofPlatform .native) .native
    rfl " 0X3FC00000\n" ["--from", "single", "0x"]
  obtain ⟨_, _, hdescribe⟩ := hread _ _ hparse
  refine ⟨hparse, hdescribe .native rfl, hrun, ?_⟩
  rcases hends with h | ⟨h, _⟩ | ⟨h, _⟩
  · exact h
  · rw [hrun] at h
    cases h
  · rw [hrun] at h
    cases h

/-- A pattern for which the layout was taken away is neither shown nor complained of. -/
theorem run_breaks_off_without_layout :
    Withdraws .source "--from=--" ∧
      (run (.ofPlatform .native) ["--from=--", "0x3c00"]).ending = .noLayout ∧
        ¬ (run (.ofPlatform .native) ["--from=--", "0x3c00"]).ending.IsOrderly := by
  have hrun : (run (.ofPlatform .native) ["--from=--", "0x3c00"]).ending = .noLayout := by
    decide +kernel
  refine ⟨⟨"--from".toList, List.prefix_rfl, by decide, by decide⟩, hrun, ?_⟩
  rw [hrun]
  exact id

end HalfPrecision.CommandLine
